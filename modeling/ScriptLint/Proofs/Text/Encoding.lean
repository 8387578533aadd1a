import ScriptLint.Proofs.Text.Utf8

/-!
# Writing and reading

The bytes of a text are those of its characters, one after another (`encode_ofList`).
Reading goes on behind a character as if nothing had come before it
(`decodeFrom_encodeChar`), and so reading the bytes of a text gives the text back
(`decode_bytesOf`).

A character is a byte of its own if it is ASCII, and otherwise none of its bytes is
ASCII (`encodeChar_cases`).
-/

namespace ScriptLint.Utf8

/-! ## Bytes -/

theorem loop_eq (bs : ByteArray) (i : Nat) (read : List UInt8) :
    ByteArray.toList.loop bs i read = read.reverse ++ bs.data.toList.drop i := by
  fun_induction ByteArray.toList.loop bs i read with
  | case1 i read h ih =>
      have hdrop : bs.data.toList.drop i = bs.get! i :: bs.data.toList.drop (i + 1) := by
        rw [List.drop_eq_getElem_cons (by simpa using h)]
        simp [ByteArray.get!, getElem!_pos, h]
      rw [ih, hdrop, List.reverse_cons, List.append_assoc, List.singleton_append]
  | case2 i read h =>
      rw [List.drop_eq_nil_of_le (Nat.not_lt.1 h), List.append_nil]

/-- The bytes of some characters. -/
def bytesOf (s : List Char) : List UInt8 :=
  s.flatMap String.utf8EncodeChar

theorem bytesOf_append (s t : List Char) : bytesOf (s ++ t) = bytesOf s ++ bytesOf t :=
  List.flatMap_append

theorem encode_ofList (s : List Char) : encode (.ofList s) = bytesOf s := by
  rw [encode, String.toUTF8, String.toByteArray_ofList, List.utf8Encode, ByteArray.toList, loop_eq]
  simp [bytesOf]

theorem encodeChar_cases (c : Char) :
    (c.toNat < 128 ∧ String.utf8EncodeChar c = [UInt8.ofNat c.toNat]) ∨
      (128 ≤ c.toNat ∧ ∀ b ∈ String.utf8EncodeChar c, 128 ≤ b.toNat) := by
  have hval : c.toNat = c.val.toNat := rfl
  unfold String.utf8EncodeChar
  simp only []
  split_ifs with h₁ h₂ h₃
  · exact .inl ⟨by omega, rfl⟩
  all_goals
    refine .inr ⟨by omega, ?_⟩
    simp
    omega

/-! ## Reading a character

The first byte of a character holds its highest bits, each further byte the next six. -/

theorem toNat_byte {n : Nat} (h : n < 256) : (UInt8.ofNat n).toNat = n :=
  UInt8.toNat_ofNat_of_lt h

theorem first_two {x : Nat} (h : 2 ≤ x) (h' : x < 32) :
    first (.ofNat (x + 0xC0)) = (.inside 0 0x80 0xBF x, []) := by
  have hx := toNat_byte (n := x + 0xC0) (by omega)
  unfold first
  split_ifs <;> simp_all [UInt8.lt_iff_toNat_lt, ← UInt8.toNat_inj] <;> omega

theorem first_three {x : Nat} (h : x < 16) :
    first (.ofNat (x + 0xE0)) =
      (.inside 1 (if x = 0 then 0xA0 else 0x80) (if x = 13 then 0x9F else 0xBF) x, []) := by
  have hx := toNat_byte (n := x + 0xE0) (by omega)
  unfold first
  split_ifs <;> simp_all [UInt8.lt_iff_toNat_lt, ← UInt8.toNat_inj] <;> omega

theorem first_four {x : Nat} (h : x < 5) :
    first (.ofNat (x + 0xF0)) =
      (.inside 2 (if x = 0 then 0x90 else 0x80) (if x = 4 then 0x8F else 0xBF) x, []) := by
  have hx := toNat_byte (n := x + 0xF0) (by omega)
  unfold first
  split_ifs <;> simp_all [UInt8.lt_iff_toNat_lt, ← UInt8.toNat_inj] <;> omega

/-- A byte in the interval is taken into the character. -/
theorem step_inside_of_le {low high : UInt8} {y : Nat} (hy : y < 64) (hlow : low.toNat ≤ y + 0x80)
    (hhigh : y + 0x80 ≤ high.toNat) (missing value : Nat) :
    step (.inside missing low high value) (.ofNat (y + 0x80)) =
      match missing with
      | 0 => (.ready, [Char.ofNat (value * 64 + y)])
      | missing + 1 => (.inside missing 0x80 0xBF (value * 64 + y), []) := by
  have hbyte := toNat_byte (n := y + 0x80) (by omega)
  have hmem : low ≤ .ofNat (y + 0x80) ∧ .ofNat (y + 0x80) ≤ high := by
    simp only [UInt8.le_iff_toNat_le, hbyte]
    exact ⟨hlow, hhigh⟩
  cases missing with
  | zero => simp only [step, if_pos hmem, hbyte, Nat.add_sub_cancel]
  | succ missing => simp only [step, if_pos hmem, hbyte, Nat.add_sub_cancel]

theorem decodeFrom_two {x y : Nat} (hx : 2 ≤ x) (hx' : x < 32) (hy : y < 64) (bs : List UInt8) :
    decodeFrom .ready (.ofNat (x + 0xC0) :: .ofNat (y + 0x80) :: bs) =
      Char.ofNat (x * 64 + y) :: decodeFrom .ready bs := by
  rw [decodeFrom_cons, step, first_two hx hx', List.nil_append, decodeFrom_cons,
    step_inside_of_le hy (by simp) (by simp; omega)]
  rfl

theorem decodeFrom_three {x y z : Nat} (hx : x < 16) (hy : y < 64) (hz : z < 64)
    (hlow : x = 0 → 32 ≤ y) (hhigh : x = 13 → y < 32) (bs : List UInt8) :
    decodeFrom .ready (.ofNat (x + 0xE0) :: .ofNat (y + 0x80) :: .ofNat (z + 0x80) :: bs) =
      Char.ofNat ((x * 64 + y) * 64 + z) :: decodeFrom .ready bs := by
  rw [decodeFrom_cons, step, first_three hx, List.nil_append, decodeFrom_cons,
    step_inside_of_le hy (by split_ifs <;> simp; omega) (by split_ifs <;> simp <;> omega),
    List.nil_append, decodeFrom_cons, step_inside_of_le hz (by simp) (by simp; omega)]
  rfl

theorem decodeFrom_four {x y z w : Nat} (hx : x < 5) (hy : y < 64) (hz : z < 64) (hw : w < 64)
    (hlow : x = 0 → 16 ≤ y) (hhigh : x = 4 → y < 16) (bs : List UInt8) :
    decodeFrom .ready (.ofNat (x + 0xF0) :: .ofNat (y + 0x80) :: .ofNat (z + 0x80)
        :: .ofNat (w + 0x80) :: bs) =
      Char.ofNat (((x * 64 + y) * 64 + z) * 64 + w) :: decodeFrom .ready bs := by
  rw [decodeFrom_cons, step, first_four hx, List.nil_append, decodeFrom_cons,
    step_inside_of_le hy (by split_ifs <;> simp; omega) (by split_ifs <;> simp <;> omega),
    List.nil_append, decodeFrom_cons, step_inside_of_le hz (by simp) (by simp; omega),
    List.nil_append, decodeFrom_cons, step_inside_of_le hw (by simp) (by simp; omega)]
  rfl

/-- A character is read as itself, and reading goes on behind it. -/
theorem decodeFrom_encodeChar (c : Char) (bs : List UInt8) :
    decodeFrom .ready (String.utf8EncodeChar c ++ bs) = c :: decodeFrom .ready bs := by
  have hvalid : c.val.toNat < 0xD800 ∨ 0xE000 ≤ c.val.toNat ∧ c.val.toNat < 0x110000 := by
    have h := c.valid
    simp only [UInt32.isValidChar, Nat.isValidChar] at h
    omega
  have hc : Char.ofNat c.val.toNat = c := Char.ofNat_toNat c
  unfold String.utf8EncodeChar
  simp only []
  generalize c.val.toNat = n at hvalid hc
  split_ifs with h₁ h₂ h₃
  · have hn := toNat_byte (n := n) (by omega)
    have hlt : UInt8.ofNat n < 0x80 := by
      rw [UInt8.lt_iff_toNat_lt, hn]
      exact Nat.lt_succ_of_le h₁
    rw [List.singleton_append, decodeFrom_cons, step, first_of_lt hlt, hn, hc]
    rfl
  · have hn : n / 64 % 32 * 64 + n % 64 = n := by omega
    rw [List.cons_append, List.singleton_append,
      decodeFrom_two (by omega) (by omega) (by omega), hn, hc]
  · have hn : (n / 4096 % 16 * 64 + n / 64 % 64) * 64 + n % 64 = n := by omega
    rw [List.cons_append, List.cons_append, List.singleton_append,
      decodeFrom_three (by omega) (by omega) (by omega) (by omega) (by omega), hn, hc]
  · have hn : ((n / 262144 % 8 * 64 + n / 4096 % 64) * 64 + n / 64 % 64) * 64 + n % 64 = n := by
      omega
    rw [List.cons_append, List.cons_append, List.cons_append, List.singleton_append,
      decodeFrom_four (by omega) (by omega) (by omega) (by omega) (by omega) (by omega), hn, hc]

/-- What is written is read back. -/
theorem decode_bytesOf (s : List Char) : decode (bytesOf s) = s := by
  induction s with
  | nil => rfl
  | cons c s ih =>
      rw [bytesOf, List.flatMap_cons, decode, decodeFrom_encodeChar, ← decode, ← bytesOf, ih]

end ScriptLint.Utf8
