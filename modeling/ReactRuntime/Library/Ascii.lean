import ReactRuntime.Library.Utf8

/-!
# ASCII in bytes

The byte of an ASCII character stands for that character wherever it is found in the UTF-8 form of a
text, so a text can be searched for it byte by byte.
-/
namespace ReactRuntime.Library.Utf8

theorem bytes_append (front back : List Char) : bytes (front ++ back) = bytes front ++ bytes back :=
  List.flatMap_append

/-- Every byte of a longer character is 128 or more. -/
theorem byte_of_long {c : Char} (h : c.utf8Size ≠ 1) :
    ∀ b ∈ String.utf8EncodeChar c, 128 ≤ b.toNat := by
  have hlong : ¬ c.val.toNat ≤ 0x7f := by
    rw [Ne, Char.utf8Size_eq_one_iff, UInt32.le_iff_toNat_le] at h
    exact h
  have hhigh : ∀ n m, 128 ≤ m → n + m < 256 → 128 ≤ (UInt8.ofNat (n + m)).toNat := by
    intro n m hm hlt
    rw [UInt8.toNat_ofNat_of_lt' hlt]
    omega
  intro b hb
  unfold String.utf8EncodeChar at hb
  dsimp only at hb
  rw [if_neg hlong] at hb
  split_ifs at hb
  all_goals
    simp only [List.mem_cons, List.not_mem_nil, or_false] at hb
    rcases hb with rfl | rfl | rfl | rfl | rfl
    all_goals exact hhigh _ _ (by omega) (by omega)

section
variable {a c : Char} {front back : List Char}

/-- The byte of an ASCII character. -/
def byteOf (a : Char) : UInt8 := a.val.toUInt8

theorem utf8EncodeChar_ascii (ha : a.utf8Size = 1) : String.utf8EncodeChar a = [byteOf a] :=
  String.utf8EncodeChar_eq_singleton ha

theorem toNat_byteOf (ha : a.utf8Size = 1) : (byteOf a).toNat = a.toNat ∧ a.toNat < 128 := by
  rw [Char.utf8Size_eq_one_iff, UInt32.le_iff_toNat_le] at ha
  have hlt : a.val.toNat < 128 := Nat.lt_succ_of_le ha
  rw [byteOf, UInt32.toNat_toUInt8]
  exact ⟨Nat.mod_eq_of_lt (by omega), hlt⟩

/-- The byte of an ASCII character is in no other character. -/
theorem byteOf_mem (ha : a.utf8Size = 1) : byteOf a ∈ String.utf8EncodeChar c ↔ c = a := by
  obtain ⟨hbyte, hlt⟩ := toNat_byteOf ha
  constructor
  · intro hmem
    by_cases hc : c.utf8Size = 1
    · rw [utf8EncodeChar_ascii hc, List.mem_singleton] at hmem
      have hsame := congrArg UInt8.toNat hmem
      rw [hbyte, (toNat_byteOf hc).1] at hsame
      exact (Char.toNat_inj.mp hsame).symm
    · have hlong := byte_of_long hc _ hmem
      omega
  · rintro rfl
    rw [utf8EncodeChar_ascii ha]
    exact List.mem_singleton_self _

theorem drop_bytes (front back : List Char) :
    (bytes (front ++ back)).drop (byteLength front) = bytes back := by
  rw [bytes_append, ← length_bytes, List.drop_left]

/-- A text starts with the byte of an ASCII character if it starts with the character. -/
theorem head?_bytes (ha : a.utf8Size = 1) :
    (bytes back).head? = some (byteOf a) ↔ back.head? = some a := by
  cases back with
  | nil => simp [bytes]
  | cons c back =>
    obtain ⟨b, more, hbytes⟩ : ∃ b more, String.utf8EncodeChar c = b :: more :=
      List.exists_cons_of_ne_nil String.utf8EncodeChar_ne_nil
    rw [bytes, List.flatMap_cons, hbytes, List.cons_append, List.head?_cons, List.head?_cons,
      Option.some_inj, Option.some_inj]
    constructor
    · rintro rfl
      apply (byteOf_mem ha).mp
      rw [hbytes]
      exact List.mem_cons_self
    · rintro rfl
      rw [utf8EncodeChar_ascii ha] at hbytes
      exact (List.cons_eq_cons.mp hbytes).1.symm

theorem getElem?_bytes (ha : a.utf8Size = 1) :
    (bytes (front ++ back))[byteLength front]? = some (byteOf a) ↔ back.head? = some a := by
  rw [← head?_bytes ha, ← drop_bytes front back, List.head?_drop]

/-- The bytes up to the byte of an ASCII character are those of the characters up to it. -/
theorem takeWhile_bytes (ha : a.utf8Size = 1) (text : List Char) :
    (bytes text).takeWhile (· ≠ byteOf a) = bytes (text.takeWhile (· ≠ a)) := by
  induction text with
  | nil => rfl
  | cons c text ih =>
    rw [bytes, List.flatMap_cons]
    by_cases hc : c = a
    · subst hc
      rw [utf8EncodeChar_ascii ha, List.singleton_append, List.takeWhile_cons_of_neg (by simp),
        List.takeWhile_cons_of_neg (by simp)]
      rfl
    · have hall : ∀ b ∈ String.utf8EncodeChar c, decide (b ≠ byteOf a) = true := by
        intro b hb
        rw [decide_eq_true_eq]
        rintro rfl
        exact hc ((byteOf_mem ha).mp hb)
      rw [List.takeWhile_append_of_pos hall, List.takeWhile_cons_of_pos (by simpa using hc), bytes,
        List.flatMap_cons]
      congr 1

end
end ReactRuntime.Library.Utf8
