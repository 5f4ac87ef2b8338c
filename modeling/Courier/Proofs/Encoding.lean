import Courier.Text.Bytes
import Mathlib.Data.Char
import Mathlib.Data.String.Basic
import Mathlib.Tactic.SplitIfs

namespace Courier.Bytes

def spread (mark : Nat) : Nat → Nat → Bytes
  | 0, n => [UInt8.ofNat (n + mark)]
  | k + 1, n => spread mark k (n / 64) ++ [UInt8.ofNat (n % 64 + 0x80)]

def more (n : Nat) : Nat :=
  if n < 0x80 then 0 else if n < 0x800 then 1 else if n < 0x10000 then 2 else 3

def mark : Nat → Nat
  | 0 => 0
  | 1 => 0xC0
  | 2 => 0xE0
  | _ => 0xF0

def lead (n : Nat) : Nat := n / 64 ^ more n + mark (more n)

def encode (n : Nat) : Bytes := spread (mark (more n)) (more n) n

theorem toNat_le (c : Char) : c.toNat ≤ 0x10FFFF := by
  rcases c.valid with low | high
  · exact Nat.le_trans (Nat.le_of_lt low) (by decide)
  · exact Nat.le_of_lt_succ high.2

theorem utf8EncodeChar_eq (c : Char) : String.utf8EncodeChar c = encode c.toNat := by
  have number : c.val.toNat = c.toNat := rfl
  have top : c.toNat ≤ 0x10FFFF := toNat_le c
  rw [encode, more, String.utf8EncodeChar, number]
  split_ifs <;>
    simp only [spread, mark, List.cons_append, List.nil_append, Nat.div_div_eq_div_mul] <;> grind

theorem toList_eq (bs : ByteArray) : bs.toList = bs.data.toList := by
  have loop (i : Nat) (r : List UInt8) :
      ByteArray.toList.loop bs i r = r.reverse ++ bs.data.toList.drop i := by
    induction i, r using ByteArray.toList.loop.induct bs with
    | case1 i r within ih =>
      have inside : i < bs.data.toList.length := within
      have byte : bs.get! i = bs.data[i]! := rfl
      rw [ByteArray.toList.loop, if_pos within, ih, List.drop_eq_getElem_cons inside]
      simp [byte, getElem!_pos bs.data i inside]
    | case2 i r beyond =>
      rw [ByteArray.toList.loop, if_neg beyond, List.drop_eq_nil_of_le (Nat.le_of_not_lt beyond),
        List.append_nil]
  rw [ByteArray.toList, loop, List.reverse_nil, List.nil_append, List.drop_zero]

theorem ofText_eq (s : String) : ofText s = s.toList.flatMap fun c => encode c.toNat := by
  have bytes : s.toByteArray = s.toList.utf8Encode := by
    rw [← String.toByteArray_ofList, String.ofList_toList]
  rw [ofText, toList_eq, String.toUTF8, bytes, List.utf8Encode, List.toList_data_toByteArray,
    funext utf8EncodeChar_eq]

theorem ofText_append (s t : String) : ofText (s ++ t) = ofText s ++ ofText t := by
  rw [ofText_eq, String.toList_append, List.flatMap_append, ← ofText_eq, ← ofText_eq]

section Order

variable {m n k : Nat}

theorem cons_lt_cons (h : m < n) (byte : n < 256) (u v : Bytes) :
    UInt8.ofNat m :: u < UInt8.ofNat n :: v := by
  refine List.cons_lt_cons_iff.2 (.inl (UInt8.lt_iff_toNat_lt.2 ?_))
  rwa [UInt8.toNat_ofNat_of_lt' (Nat.lt_trans h byte), UInt8.toNat_ofNat_of_lt' byte]

theorem lead_lt (h : n ≤ 0x10FFFF) : lead n < 256 := by
  unfold lead more
  split_ifs <;> simp only [mark] <;> omega

theorem more_le (h : m ≤ n) : more m ≤ more n := by
  unfold more
  split_ifs <;> omega

theorem lead_lt_lead (h : more m < more n) : lead m < lead n := by
  unfold lead
  unfold more at h ⊢
  split_ifs at h ⊢ <;> simp only [mark] <;> omega

theorem spread_eq_cons (mark k n : Nat) :
    ∃ rest, spread mark k n = UInt8.ofNat (n / 64 ^ k + mark) :: rest := by
  induction k generalizing n with
  | zero => exact ⟨[], by rw [Nat.pow_zero, Nat.div_one, spread]⟩
  | succ k ih =>
    obtain ⟨rest, first⟩ := ih (n / 64)
    refine ⟨rest ++ [UInt8.ofNat (n % 64 + 0x80)], ?_⟩
    rw [spread, first, Nat.div_div_eq_div_mul, Nat.pow_succ', List.cons_append]

theorem spread_lt {mark : Nat} (h : m < n) (byte : n / 64 ^ k + mark < 256) (u v : Bytes) :
    spread mark k m ++ u < spread mark k n ++ v := by
  induction k generalizing m n u v with
  | zero =>
    rw [Nat.pow_zero, Nat.div_one] at byte
    exact cons_lt_cons (Nat.add_lt_add_right h mark) byte u v
  | succ k ih =>
    rw [spread, spread, List.append_assoc, List.append_assoc]
    rcases Nat.lt_or_eq_of_le (Nat.div_le_div_right (c := 64) (Nat.le_of_lt h)) with less | same
    · rw [Nat.pow_succ', ← Nat.div_div_eq_div_mul] at byte
      exact ih less byte _ _
    · rw [same]
      exact List.append_left_lt (cons_lt_cons (by omega) (by omega) u v)

theorem encode_eq_cons (n : Nat) : ∃ rest, encode n = UInt8.ofNat (lead n) :: rest :=
  spread_eq_cons (mark (more n)) (more n) n

theorem encode_lt (h : m < n) (top : n ≤ 0x10FFFF) (u v : Bytes) :
    encode m ++ u < encode n ++ v := by
  rcases Nat.lt_or_eq_of_le (more_le (Nat.le_of_lt h)) with fewer | same
  · obtain ⟨rest, first⟩ := encode_eq_cons m
    obtain ⟨rest', first'⟩ := encode_eq_cons n
    rw [first, first']
    exact cons_lt_cons (lead_lt_lead fewer) (lead_lt top) _ _
  · rw [encode, encode, same]
    exact spread_lt h (lead_lt top) u v

theorem encodeAll_lt {cs ds : List Char} (h : List.Lex (· < ·) cs ds) :
    cs.flatMap (fun c => encode c.toNat) < ds.flatMap fun c => encode c.toNat := by
  induction h with
  | @nil d ds =>
    obtain ⟨rest, first⟩ := encode_eq_cons d.toNat
    rw [List.flatMap_nil, List.flatMap_cons, first]
    exact List.nil_lt_cons _ _
  | rel less =>
    rw [List.flatMap_cons, List.flatMap_cons]
    exact encode_lt less (toNat_le _) _ _
  | cons _ ih =>
    rw [List.flatMap_cons, List.flatMap_cons]
    exact List.append_left_lt ih

theorem ofText_lt {s t : String} (h : s < t) : ofText s < ofText t := by
  rw [ofText_eq, ofText_eq]
  exact encodeAll_lt (List.lex_lt.2 (String.lt_iff_toList_lt.1 h))

/-- The order of texts is the order of their bytes. -/
theorem ofText_lt_iff {s t : String} : ofText s < ofText t ↔ s < t := by
  refine ⟨fun before => ?_, ofText_lt⟩
  rcases lt_trichotomy s t with less | rfl | greater
  · exact less
  · exact absurd before (List.lt_irrefl _)
  · exact absurd (ofText_lt greater) (List.lt_asymm before)

end Order

/-- Every byte as the character with its number. -/
def plain (bs : Bytes) : String := String.ofList (bs.map Char.ofUInt8)

section Plain

variable {s : String}

theorem toList_plain (bs : Bytes) : (plain bs).toList = bs.map Char.ofUInt8 := String.toList_ofList

theorem toNat_ofUInt8 (b : UInt8) : (Char.ofUInt8 b).toNat = b.toNat := UInt8.toNat_toUInt32 b

theorem ofUInt8_inj {a b : UInt8} : Char.ofUInt8 a = Char.ofUInt8 b ↔ a = b := by
  rw [← Char.toNat_inj, toNat_ofUInt8, toNat_ofUInt8, UInt8.toNat_inj]

theorem plain_lt_iff {a b : Bytes} : plain a < plain b ↔ a < b := by
  have char_lt {a b : UInt8} : Char.ofUInt8 a < Char.ofUInt8 b ↔ a < b := by
    rw [Char.lt_def, UInt32.lt_iff_toNat_lt, UInt8.lt_iff_toNat_lt]
    exact Iff.of_eq (congrArg₂ _ (toNat_ofUInt8 a) (toNat_ofUInt8 b))
  rw [String.lt_iff_toList_lt, toList_plain, toList_plain]
  induction a generalizing b with
  | nil => cases b <;> simp
  | cons x a ih =>
    cases b with
    | nil => simp
    | cons y b =>
      rw [List.map_cons, List.map_cons, List.cons_lt_cons_iff, List.cons_lt_cons_iff]
      exact or_congr char_lt (and_congr ofUInt8_inj ih)

theorem plain_ofText (ascii : ∀ c ∈ s.toList, c.toNat < 0x80) : plain (ofText s) = s := by
  have single {c : Char} (h : c.toNat < 0x80) : (encode c.toNat).map Char.ofUInt8 = [c] := by
    have byte : (UInt8.ofNat c.toNat).toNat = c.toNat :=
      UInt8.toNat_ofNat_of_lt' (Nat.lt_trans h (by decide))
    rw [encode, more, if_pos h, mark, spread, List.map_singleton, Nat.add_zero, List.singleton_inj,
      ← Char.toNat_inj, toNat_ofUInt8, byte]
  rw [plain, ofText_eq, List.map_flatMap]
  conv_rhs => rw [← String.ofList_toList (s := s), ← List.flatMap_singleton' s.toList]
  rw [List.flatMap_congr fun c hc => single (ascii c hc)]

theorem ascii_of_plain (h : ∀ c ∈ (plain (ofText s)).toList, c.toNat < 0x80) :
    ∀ c ∈ s.toList, c.toNat < 0x80 := by
  intro c hc
  by_contra beyond
  have high : 0x80 ≤ lead c.toNat := by
    unfold lead more
    split_ifs <;> simp only [mark] <;> omega
  obtain ⟨rest, first⟩ := encode_eq_cons c.toNat
  have inside : UInt8.ofNat (lead c.toNat) ∈ ofText s := by
    rw [ofText_eq]
    exact List.mem_flatMap.2 ⟨c, hc, first ▸ List.mem_cons_self⟩
  have low := h _ (toList_plain _ ▸ List.mem_map_of_mem inside)
  rw [toNat_ofUInt8, UInt8.toNat_ofNat_of_lt' (lead_lt (toNat_le c))] at low
  omega

theorem plain_ofText_iff {P : String → Prop}
    (ascii : ∀ s, P s → ∀ c ∈ s.toList, c.toNat < 0x80) : P (plain (ofText s)) ↔ P s := by
  constructor
  · intro h
    rwa [plain_ofText (ascii_of_plain (ascii _ h))] at h
  · intro h
    rwa [plain_ofText (ascii s h)]

end Plain

end Courier.Bytes
