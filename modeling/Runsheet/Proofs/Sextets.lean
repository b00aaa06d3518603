import Mathlib.Algebra.Group.Nat.Defs
import Runsheet.Expression.Eval

/-!
# Bytes in base 64

Bytes cut a row of bits into eights, and the digits of base 64 cut the same row into sixes.  Zeros fill up the last
six, and equals signs the last four characters.  Nothing of this is left open, so that every sequence of bytes has
exactly one written form, and reading accepts no other text.  A text is written as its bytes in UTF-8, and bytes
that are read are a text only if they are those of one.

* `Text.Base64.value?_eq_some_iff` — the digits and their values;
* `Text.Base64.bits_shift` — bits that are cut elsewhere;
* `Text.Base64.IsForm` — the written form of bytes;
* `Text.Base64.isForm_iff`, `Text.Base64.decode_eq_some_iff` — it is what is written, and what is read;
* `Text.Base64.decodeString_eq_some_iff` — texts;
* `base64_filters_inverse` — the result.
-/

namespace Runsheet

namespace Text.Base64

/-! ### Digits -/

theorem value?_digit : ∀ n < 64, value? (digit n) = some n := by
  decide +kernel

theorem digit_ne_equals : ∀ n < 64, digit n ≠ '=' := by
  decide +kernel

/-- The digits of a range are characters that follow each other. -/
theorem digit_of_range {first count place : Nat}
    (hrange : ∀ k < count, digit (k + place) = Char.ofNat (k + first)) {c : Char} {n : Nat}
    (hlow : first ≤ c.toNat) (hhigh : c.toNat < first + count) (hplace : n + first = c.toNat + place) :
    digit n = c := by
  obtain ⟨k, hk⟩ := Nat.exists_eq_add_of_le hlow
  obtain rfl : n = k + place := by omega
  rw [hrange k (by omega), Nat.add_comm, ← hk, Char.ofNat_toNat]

theorem digit_of_value? {c : Char} {n : Nat} (h : value? c = some n) : n < 64 ∧ digit n = c := by
  have hcapitals : ∀ k < 26, digit (k + 0) = Char.ofNat (k + 65) := by decide
  have hletters : ∀ k < 26, digit (k + 26) = Char.ofNat (k + 97) := by decide
  have hnumerals : ∀ k < 10, digit (k + 52) = Char.ofNat (k + 48) := by decide
  simp only [value?, Bool.and_eq_true, decide_eq_true_eq] at h
  split at h
  next hc =>
    cases h
    exact ⟨by omega, digit_of_range hcapitals hc.1 (by omega) (by omega)⟩
  split at h
  next hc =>
    cases h
    exact ⟨by omega, digit_of_range hletters hc.1 (by omega) (by omega)⟩
  split at h
  next hc =>
    cases h
    exact ⟨by omega, digit_of_range hnumerals hc.1 (by omega) (by omega)⟩
  split at h
  next hplus =>
    cases h
    rw [hplus]
    decide
  split at h
  next hslash =>
    cases h
    rw [hslash]
    decide
  cases h

/-- **The value of a digit is its place in the alphabet**, and no other character has a value. -/
theorem value?_eq_some_iff {c : Char} {n : Nat} : value? c = some n ↔ n < 64 ∧ digit n = c := by
  constructor
  · exact digit_of_value?
  · rintro ⟨hn, rfl⟩
    exact value?_digit n hn

/-! ### Rows of bits -/

/-- The bits of a number in a row of some width, the highest first. -/
def bits (width n : Nat) : List Bool :=
  (List.range width).reverse.map n.testBit

theorem length_bits (width n : Nat) : (bits width n).length = width := by
  rw [bits, List.length_map, List.length_reverse, List.length_range]

/-- A number put before another one has its bits before those of the other. -/
theorem bits_mul_add (m n x : Nat) {y : Nat} (hy : y < 2 ^ n) :
    bits (m + n) (x * 2 ^ n + y) = bits m x ++ bits n y := by
  have hbit (i : Nat) :
      (x * 2 ^ n + y).testBit i = if i < n then y.testBit i else x.testBit (i - n) := by
    rw [Nat.mul_comm, Nat.testBit_two_pow_mul_add x hy]
  have hhigh (i : Nat) : (x * 2 ^ n + y).testBit (n + i) = x.testBit i := by
    rw [hbit, if_neg (by omega), Nat.add_sub_cancel_left]
  have hlow : ∀ i ∈ (List.range n).reverse, (x * 2 ^ n + y).testBit i = y.testBit i := by
    intro i hi
    rw [hbit, if_pos (List.mem_range.mp (List.mem_reverse.mp hi))]
  rw [bits, Nat.add_comm m n, List.range_add, List.reverse_append, List.map_append,
    List.map_congr_left hlow, ← List.map_reverse, List.map_map]
  exact congrArg (· ++ bits n y) (List.map_congr_left fun i _ => hhigh i)

/-- A number put before zeros has its bits before these. -/
theorem bits_mul (m n x : Nat) : bits (m + n) (x * 2 ^ n) = bits m x ++ List.replicate n false := by
  have hzeros : bits n 0 = List.replicate n false := by
    rw [List.eq_replicate_iff]
    constructor
    · exact length_bits n 0
    · intro b hb
      obtain ⟨i, -, rfl⟩ := List.mem_map.mp hb
      exact Nat.zero_testBit i
  have hbits := bits_mul_add m n x (Nat.two_pow_pos n)
  rw [Nat.add_zero, hzeros] at hbits
  exact hbits

/-- The bits of a number are cut in two. -/
theorem bits_cut (m n x : Nat) : bits (m + n) x = bits m (x / 2 ^ n) ++ bits n (x % 2 ^ n) := by
  rw [← bits_mul_add m n _ (Nat.mod_lt x (Nat.two_pow_pos n)), Nat.mul_comm, Nat.div_add_mod]

/-- **Bits are cut elsewhere**: what is left of a number goes together with the first bits of the next one. -/
theorem bits_shift (m n k x : Nat) {y : Nat} (hy : y < 2 ^ (n + k)) :
    bits m x ++ bits (n + k) y = bits (m + n) (x * 2 ^ n + y / 2 ^ k) ++ bits k (y % 2 ^ k) := by
  have hfront : y / 2 ^ k < 2 ^ n := by
    rw [Nat.div_lt_iff_lt_mul (Nat.two_pow_pos k), ← Nat.pow_add]
    exact hy
  rw [bits_cut n k y, ← List.append_assoc, bits_mul_add m n x hfront]

theorem bits_injective {width m n : Nat} (hm : m < 2 ^ width) (hn : n < 2 ^ width)
    (h : bits width m = bits width n) : m = n := by
  have hsame := List.map_inj_left.mp h
  apply Nat.eq_of_testBit_eq
  intro i
  by_cases hi : i < width
  · exact hsame i (List.mem_reverse.mpr (List.mem_range.mpr hi))
  · have hwidth : 2 ^ width ≤ 2 ^ i := Nat.pow_le_pow_right (by decide) (Nat.le_of_not_lt hi)
    rw [Nat.testBit_lt_two_pow (Nat.lt_of_lt_of_le hm hwidth),
      Nat.testBit_lt_two_pow (Nat.lt_of_lt_of_le hn hwidth)]

theorem length_flatMap_bits (width : Nat) (ns : List Nat) :
    (ns.flatMap (bits width)).length = width * ns.length := by
  induction ns with
  | nil => rfl
  | cons n ns ih =>
      rw [List.flatMap_cons, List.length_append, length_bits, ih, List.length_cons, Nat.mul_succ, Nat.add_comm]

/-- Numbers of one width are known from their bits in one row. -/
theorem eq_of_flatMap_bits {width : Nat} (hwidth : 0 < width) {ns ms : List Nat}
    (hns : ∀ n ∈ ns, n < 2 ^ width) (hms : ∀ m ∈ ms, m < 2 ^ width)
    (h : ns.flatMap (bits width) = ms.flatMap (bits width)) : ns = ms := by
  have hlength : width * ns.length = width * ms.length := by
    rw [← length_flatMap_bits, ← length_flatMap_bits, h]
  have hcount : ns.length = ms.length := Nat.eq_of_mul_eq_mul_left hwidth hlength
  clear hlength
  induction ns generalizing ms with
  | nil => exact (List.length_eq_zero_iff.mp hcount.symm).symm
  | cons n ns ih =>
      cases ms with
      | nil => cases hcount
      | cons m ms =>
          rw [List.flatMap_cons, List.flatMap_cons] at h
          obtain ⟨hfirst, hothers⟩ := List.append_inj h (by rw [length_bits, length_bits])
          have hsame : n = m := bits_injective (hns n List.mem_cons_self) (hms m List.mem_cons_self) hfirst
          have hrest : ns = ms := ih (fun k hk => hns k (List.mem_cons_of_mem n hk))
            (fun k hk => hms k (List.mem_cons_of_mem m hk)) hothers (Nat.succ.inj hcount)
          rw [hsame, hrest]

/-- The bits of two bytes are two sixes, and four that are left. -/
theorem bits_two_bytes (a b : UInt8) :
    bits 8 a.toNat ++ bits 8 b.toNat = bits 6 (a.toNat / 4) ++
      (bits 6 (a.toNat % 4 * 16 + b.toNat / 16) ++ bits 4 (b.toNat % 16)) := by
  have hfirst : bits 8 a.toNat = bits 6 (a.toNat / 4) ++ bits 2 (a.toNat % 4) := bits_cut 6 2 _
  have hsecond : bits 2 (a.toNat % 4) ++ bits 8 b.toNat =
      bits 6 (a.toNat % 4 * 16 + b.toNat / 16) ++ bits 4 (b.toNat % 16) := bits_shift 2 4 4 _ b.toNat_lt
  rw [hfirst, List.append_assoc, hsecond]

/-- The bits of three bytes are four sixes. -/
theorem bits_three_bytes (a b c : UInt8) :
    [a.toNat / 4, a.toNat % 4 * 16 + b.toNat / 16, b.toNat % 16 * 4 + c.toNat / 64, c.toNat % 64].flatMap
      (bits 6) = [a, b, c].flatMap fun b => bits 8 b.toNat := by
  have hthird : bits 4 (b.toNat % 16) ++ bits 8 c.toNat =
      bits 6 (b.toNat % 16 * 4 + c.toNat / 64) ++ bits 6 (c.toNat % 64) := bits_shift 4 2 6 _ c.toNat_lt
  simp only [List.flatMap_cons, List.flatMap_nil, List.append_nil]
  rw [← List.append_assoc (bits 8 a.toNat), bits_two_bytes, List.append_assoc, List.append_assoc, hthird]

/-! ### The written form -/

/-- **The written form of bytes.**  Their bits, with fewer than six zeros behind them, are cut into sixes, each of
which is written by its digit; and fewer than four equals signs fill up the last group of four characters. -/
inductive IsForm (bytes : List UInt8) : List Char → Prop
  | of_bits (values : List Nat) (zeros signs : Nat) (small : ∀ n ∈ values, n < 64)
      (same : values.flatMap (bits 6) =
        bytes.flatMap (fun b => bits 8 b.toNat) ++ List.replicate zeros false)
      (few_zeros : zeros < 6) (groups : 4 ∣ values.length + signs) (few_signs : signs < 4) :
      IsForm bytes (values.map digit ++ List.replicate signs '=')

namespace IsForm

/-- Bytes have no more than one written form. -/
theorem unique {bytes : List UInt8} {cs ds : List Char} (hcs : IsForm bytes cs) (hds : IsForm bytes ds) :
    cs = ds := by
  cases hcs with
  | of_bits ns zeros signs hns hbits hzeros hgroups hsigns =>
      cases hds with
      | of_bits ms zeros' signs' hms hbits' hzeros' hgroups' hsigns' =>
          -- Only one number of zeros below six makes the number of bits a multiple of six.
          have hlength := congrArg List.length hbits
          have hlength' := congrArg List.length hbits'
          rw [length_flatMap_bits, List.length_append, List.length_replicate] at hlength hlength'
          obtain rfl : zeros = zeros' := by omega
          obtain rfl : ns = ms := eq_of_flatMap_bits (by decide) hns hms (hbits.trans hbits'.symm)
          obtain rfl : signs = signs' := by omega
          rfl

theorem nil : IsForm [] [] :=
  .of_bits [] 0 0 nofun rfl (by decide) (by decide) (by decide)

/-- One byte is two digits and two equals signs. -/
theorem one (a : UInt8) : IsForm [a] [digit (a.toNat / 4), digit (a.toNat % 4 * 16), '=', '='] := by
  have ha := a.toNat_lt
  have hfirst : bits 8 a.toNat = bits 6 (a.toNat / 4) ++ bits 2 (a.toNat % 4) := bits_cut 6 2 _
  have hlast : bits 6 (a.toNat % 4 * 16) = bits 2 (a.toNat % 4) ++ List.replicate 4 false := bits_mul 2 4 _
  refine .of_bits [a.toNat / 4, a.toNat % 4 * 16] 4 2 ?_ ?_ (by decide) (by simp) (by decide)
  · simp only [List.mem_cons, List.not_mem_nil, or_false]
    omega
  · simp only [List.flatMap_cons, List.flatMap_nil, List.append_nil, hlast, hfirst, List.append_assoc]

/-- Two bytes are three digits and one equals sign. -/
theorem two (a b : UInt8) :
    IsForm [a, b]
      [digit (a.toNat / 4), digit (a.toNat % 4 * 16 + b.toNat / 16), digit (b.toNat % 16 * 4), '='] := by
  have ha := a.toNat_lt
  have hb := b.toNat_lt
  have hlast : bits 6 (b.toNat % 16 * 4) = bits 4 (b.toNat % 16) ++ List.replicate 2 false := bits_mul 4 2 _
  refine .of_bits [a.toNat / 4, a.toNat % 4 * 16 + b.toNat / 16, b.toNat % 16 * 4] 2 1 ?_ ?_
    (by decide) (by simp) (by decide)
  · simp only [List.mem_cons, List.not_mem_nil, or_false]
    omega
  · simp only [List.flatMap_cons, List.flatMap_nil, List.append_nil, hlast, bits_two_bytes,
      List.append_assoc]

/-- Three bytes before others are four digits before the form of these. -/
theorem group (a b c : UInt8) {rest : List UInt8} {cs : List Char} (h : IsForm rest cs) :
    IsForm (a :: b :: c :: rest)
      (digit (a.toNat / 4) :: digit (a.toNat % 4 * 16 + b.toNat / 16) ::
        digit (b.toNat % 16 * 4 + c.toNat / 64) :: digit (c.toNat % 64) :: cs) := by
  have ha := a.toNat_lt
  have hb := b.toNat_lt
  have hc := c.toNat_lt
  cases h with
  | of_bits values zeros signs small same few_zeros groups few_signs =>
      refine .of_bits (a.toNat / 4 :: (a.toNat % 4 * 16 + b.toNat / 16) ::
        (b.toNat % 16 * 4 + c.toNat / 64) :: c.toNat % 64 :: values) zeros signs ?_ ?_ few_zeros ?_ few_signs
      · simp only [List.forall_mem_cons]
        exact ⟨by omega, by omega, by omega, by omega, small⟩
      · have hbits := congrArg (· ++ values.flatMap (bits 6)) (bits_three_bytes a b c)
        rw [← List.flatMap_append, same, ← List.append_assoc, ← List.flatMap_append] at hbits
        exact hbits
      · simp only [List.length_cons]
        omega

end IsForm

theorem isForm_encode (bytes : List UInt8) : IsForm bytes (encode bytes) := by
  fun_induction encode bytes with
  | case1 => exact .nil
  | case2 a => exact .one a
  | case3 a b => exact .two a b
  | case4 a b c rest ih => exact .group a b c ih

/-- **What is written is the written form.** -/
theorem isForm_iff {bytes : List UInt8} {cs : List Char} : IsForm bytes cs ↔ encode bytes = cs := by
  constructor
  · exact (isForm_encode bytes).unique
  · rintro rfl
    exact isForm_encode bytes

/-! ### Reading -/

/-- A full group of four values is three bytes, cut as these are written. -/
theorem fullGroup_eq_iff {w x y z : Nat} {bytes : List UInt8} (hw : w < 64) (hx : x < 64) (hy : y < 64)
    (hz : z < 64) :
    fullGroup w x y z = bytes ↔ ∃ a b c : UInt8, bytes = [a, b, c] ∧
      w = a.toNat / 4 ∧ x = a.toNat % 4 * 16 + b.toNat / 16 ∧ y = b.toNat % 16 * 4 + c.toNat / 64 ∧
        z = c.toNat % 64 := by
  constructor
  · rintro rfl
    refine ⟨_, _, _, rfl, ?_⟩
    simp only [UInt8.toNat_ofNat']
    omega
  · rintro ⟨a, b, c, rfl, rfl, rfl, rfl, rfl⟩
    have hb := b.toNat_lt
    have hc := c.toNat_lt
    have hfirst : a.toNat / 4 * 4 + (a.toNat % 4 * 16 + b.toNat / 16) / 16 = a.toNat := by omega
    have hsecond : (a.toNat % 4 * 16 + b.toNat / 16) % 16 * 16 + (b.toNat % 16 * 4 + c.toNat / 64) / 4 =
        b.toNat := by omega
    have hthird : (b.toNat % 16 * 4 + c.toNat / 64) % 4 * 64 + c.toNat % 64 = c.toNat := by omega
    rw [fullGroup, hfirst, hsecond, hthird, UInt8.ofNat_toNat, UInt8.ofNat_toNat, UInt8.ofNat_toNat]

theorem lastOne_eq_some_iff {w x : Nat} {bytes : List UInt8} (hw : w < 64) (hx : x < 64) :
    lastOne w x = some bytes ↔ ∃ a : UInt8, bytes = [a] ∧ w = a.toNat / 4 ∧ x = a.toNat % 4 * 16 := by
  rw [lastOne, Option.ite_none_right_eq_some, Option.some.injEq]
  constructor
  · rintro ⟨hzero, rfl⟩
    refine ⟨_, rfl, ?_⟩
    simp only [UInt8.toNat_ofNat']
    omega
  · rintro ⟨a, rfl, rfl, rfl⟩
    have hbyte : a.toNat / 4 * 4 + a.toNat % 4 * 16 / 16 = a.toNat := by omega
    rw [hbyte, UInt8.ofNat_toNat]
    exact ⟨by omega, rfl⟩

theorem lastTwo_eq_some_iff {w x y : Nat} {bytes : List UInt8} (hw : w < 64) (hx : x < 64) (hy : y < 64) :
    lastTwo w x y = some bytes ↔ ∃ a b : UInt8, bytes = [a, b] ∧
      w = a.toNat / 4 ∧ x = a.toNat % 4 * 16 + b.toNat / 16 ∧ y = b.toNat % 16 * 4 := by
  rw [lastTwo, Option.ite_none_right_eq_some, Option.some.injEq]
  constructor
  · rintro ⟨hzero, rfl⟩
    refine ⟨_, _, rfl, ?_⟩
    simp only [UInt8.toNat_ofNat']
    omega
  · rintro ⟨a, b, rfl, rfl, rfl, rfl⟩
    have hb := b.toNat_lt
    have hfirst : a.toNat / 4 * 4 + (a.toNat % 4 * 16 + b.toNat / 16) / 16 = a.toNat := by omega
    have hsecond : (a.toNat % 4 * 16 + b.toNat / 16) % 16 * 16 + b.toNat % 16 * 4 / 4 = b.toNat := by omega
    rw [hfirst, hsecond, UInt8.ofNat_toNat, UInt8.ofNat_toNat]
    exact ⟨by omega, rfl⟩

theorem encode_of_decode {cs : List Char} {bytes : List UInt8} (h : decode cs = some bytes) :
    encode bytes = cs := by
  fun_induction decode cs generalizing bytes with
  | case1 =>
      cases h
      rfl
  | case2 w x =>
      simp only [Option.bind_eq_bind, Option.bind_eq_some_iff, value?_eq_some_iff] at h
      obtain ⟨w, ⟨hw, rfl⟩, x, ⟨hx, rfl⟩, h⟩ := h
      obtain ⟨a, rfl, rfl, rfl⟩ := (lastOne_eq_some_iff hw hx).mp h
      rw [encode]
  | case3 w x y =>
      simp only [Option.bind_eq_bind, Option.bind_eq_some_iff, value?_eq_some_iff] at h
      obtain ⟨w, ⟨hw, rfl⟩, x, ⟨hx, rfl⟩, y, ⟨hy, rfl⟩, h⟩ := h
      obtain ⟨a, b, rfl, rfl, rfl, rfl⟩ := (lastTwo_eq_some_iff hw hx hy).mp h
      rw [encode]
  | case4 w x y z rest _ _ ih =>
      simp only [Option.bind_eq_bind, Option.bind_eq_some_iff, value?_eq_some_iff, Option.some.injEq] at h
      obtain ⟨w, ⟨hw, rfl⟩, x, ⟨hx, rfl⟩, y, ⟨hy, rfl⟩, z, ⟨hz, rfl⟩, others, hothers, rfl⟩ := h
      obtain ⟨a, b, c, hgroup, rfl, rfl, rfl, rfl⟩ := (fullGroup_eq_iff hw hx hy hz).mp rfl
      rw [hgroup, List.cons_append, List.cons_append, List.cons_append, List.nil_append, encode, ih hothers]
  | case5 => cases h

theorem decode_encode (bytes : List UInt8) : decode (encode bytes) = some bytes := by
  fun_induction encode bytes with
  | case1 => rfl
  | case2 a =>
      have ha := a.toNat_lt
      have hw : a.toNat / 4 < 64 := by omega
      have hx : a.toNat % 4 * 16 < 64 := by omega
      rw [decode, value?_digit _ hw, value?_digit _ hx]
      exact (lastOne_eq_some_iff hw hx).mpr ⟨a, rfl, rfl, rfl⟩
  | case3 a b =>
      have ha := a.toNat_lt
      have hb := b.toNat_lt
      have hw : a.toNat / 4 < 64 := by omega
      have hx : a.toNat % 4 * 16 + b.toNat / 16 < 64 := by omega
      have hy : b.toNat % 16 * 4 < 64 := by omega
      rw [decode, value?_digit _ hw, value?_digit _ hx, value?_digit _ hy]
      · exact (lastTwo_eq_some_iff hw hx hy).mpr ⟨a, b, rfl, rfl, rfl, rfl⟩
      · exact digit_ne_equals _ hy
  | case4 a b c rest ih =>
      have ha := a.toNat_lt
      have hb := b.toNat_lt
      have hc := c.toNat_lt
      have hw : a.toNat / 4 < 64 := by omega
      have hx : a.toNat % 4 * 16 + b.toNat / 16 < 64 := by omega
      have hy : b.toNat % 16 * 4 + c.toNat / 64 < 64 := by omega
      have hz : c.toNat % 64 < 64 := by omega
      have hsign := digit_ne_equals _ hz
      have hgroup := (fullGroup_eq_iff hw hx hy hz).mpr ⟨a, b, c, rfl, rfl, rfl, rfl, rfl⟩
      rw [decode, value?_digit _ hw, value?_digit _ hx, value?_digit _ hy, value?_digit _ hz, ih]
      · dsimp only [Option.bind_eq_bind, Option.bind_some]
        rw [hgroup]
        rfl
      · exact fun _ hequals => absurd hequals hsign
      · exact fun hequals => absurd hequals hsign

/-- **What is read is the written form.** -/
theorem decode_eq_some_iff {cs : List Char} {bytes : List UInt8} :
    decode cs = some bytes ↔ IsForm bytes cs := by
  rw [isForm_iff]
  constructor
  · exact encode_of_decode
  · rintro rfl
    exact decode_encode bytes

/-! ### Texts -/

theorem fromUTF8?_eq_some_iff {bytes : ByteArray} {text : String} :
    String.fromUTF8? bytes = some text ↔ text.toUTF8 = bytes := by
  unfold String.fromUTF8?
  constructor
  · intro h
    split at h
    next =>
      cases h
      rfl
    next => cases h
  · rintro rfl
    have hvalid : text.toUTF8.IsValidUTF8 := text.isValidUTF8
    rw [dif_pos hvalid]
    rfl

/-- The written form of a text is that of its bytes. -/
theorem encodeString_eq_iff {text written : String} :
    encodeString text = written ↔ IsForm text.toUTF8.data.toList written.toList := by
  rw [isForm_iff, encodeString, ← String.toList_inj, String.toList_ofList]

/-- **A text is read back if and only if it is written so.** -/
theorem decodeString_eq_some_iff {written text : String} :
    decodeString written = some text ↔ encodeString text = written := by
  rw [encodeString_eq_iff, ← decode_eq_some_iff, decodeString, Option.bind_eq_bind, Option.bind_eq_some_iff]
  constructor
  · rintro ⟨bytes, hbytes, htext⟩
    rw [fromUTF8?_eq_some_iff.mp htext]
    exact hbytes
  · intro hbytes
    exact ⟨_, hbytes, fromUTF8?_eq_some_iff.mpr rfl⟩

end Text.Base64

open Expression Text.Base64

/-! ### Filters -/

namespace Expression

/-- What the filter of a name makes of a text that is given to it alone. -/
def filteredText (s : Setting) (name text : String) : Value.Result :=
  applyFilter s name ⟨[.string text], []⟩

variable {s : Setting} {text written : String}

theorem filteredText_encode : filteredText s "b64encode" text = .ok (.string (encodeString text)) :=
  rfl

theorem filteredText_decode : filteredText s "b64decode" written =
    (decodeString written).elim (.error .invalidOperation) fun text => .ok (.string text) := by
  have hfilter : filteredText s "b64decode" written = Filter.decode s ⟨[.string written], []⟩ := rfl
  have htext : (Taking.text s).run (Arguments.all ⟨[.string written], []⟩) = .ok written := rfl
  rw [hfilter, Filter.decode, htext]
  dsimp only [bind, Except.bind]
  cases decodeString written with
  | none => rfl
  | some text => rfl

theorem filteredText_decode_of_some (h : decodeString written = some text) :
    filteredText s "b64decode" written = .ok (.string text) := by
  rw [filteredText_decode, h, Option.elim_some]

theorem filteredText_decode_of_none (h : decodeString written = none) :
    filteredText s "b64decode" written = .error .invalidOperation := by
  rw [filteredText_decode, h, Option.elim_none]

theorem filteredText_encode_eq_ok :
    filteredText s "b64encode" text = .ok (.string written) ↔ encodeString text = written := by
  rw [filteredText_encode, Except.ok.injEq, Value.string.injEq]

/-- Decoding has a value where the text is written so, and the value is that text. -/
theorem filteredText_decode_eq_ok {v : Value} :
    filteredText s "b64decode" written = .ok v ↔
      ∃ text, v = .string text ∧ filteredText s "b64encode" text = .ok (.string written) := by
  simp only [filteredText_encode_eq_ok, ← decodeString_eq_some_iff]
  constructor
  · intro h
    cases hread : decodeString written with
    | none =>
        rw [filteredText_decode_of_none hread] at h
        cases h
    | some text =>
        rw [filteredText_decode_of_some hread] at h
        cases h
        exact ⟨text, rfl, rfl⟩
  · rintro ⟨text, rfl, hread⟩
    exact filteredText_decode_of_some hread

/-- Decoding fails where no text is written so. -/
theorem filteredText_decode_eq_error :
    filteredText s "b64decode" written = .error .invalidOperation ↔
      ∀ text, filteredText s "b64encode" text ≠ .ok (.string written) := by
  simp only [ne_eq, filteredText_encode_eq_ok, ← decodeString_eq_some_iff]
  constructor
  · intro h text hread
    rw [filteredText_decode_of_some hread] at h
    cases h
  · intro h
    exact filteredText_decode_of_none (Option.eq_none_iff_forall_ne_some.mpr h)

end Expression

/-- **The filters of base 64 undo each other.**  In every setting:

* every text is encoded, and the result is decoded as the text again;
* a text is encoded as the one written form of the bytes that it has in UTF-8;
* what is decoded is encoded as it was found, and everything that a text is encoded as is decoded;
* two texts that are decoded alike are the same;
* decoding fails, as an invalid operation, if and only if no text is encoded as what is to be decoded. -/
theorem base64_filters_inverse (s : Setting) :
    (∀ text, ∃ written, filteredText s "b64encode" text = .ok (.string written) ∧
      filteredText s "b64decode" written = .ok (.string text)) ∧
    (∀ text written, filteredText s "b64encode" text = .ok (.string written) ↔
      IsForm text.toUTF8.data.toList written.toList) ∧
    (∀ written v, filteredText s "b64decode" written = .ok v ↔
      ∃ text, v = .string text ∧ filteredText s "b64encode" text = .ok (.string written)) ∧
    (∀ written other v, filteredText s "b64decode" written = .ok v →
      filteredText s "b64decode" other = .ok v → written = other) ∧
    (∀ written, filteredText s "b64decode" written = .error .invalidOperation ↔
      ∀ text, filteredText s "b64encode" text ≠ .ok (.string written)) := by
  refine ⟨?_, ?_, fun written v => filteredText_decode_eq_ok, ?_, fun written => filteredText_decode_eq_error⟩
  · intro text
    have hread : decodeString (encodeString text) = some text := decodeString_eq_some_iff.mpr rfl
    exact ⟨encodeString text, filteredText_encode, filteredText_decode_of_some hread⟩
  · intro text written
    rw [filteredText_encode_eq_ok, encodeString_eq_iff]
  · intro written other v hwritten hother
    obtain ⟨text, rfl, hencoded⟩ := filteredText_decode_eq_ok.mp hwritten
    obtain ⟨_, hsame, hencoded'⟩ := filteredText_decode_eq_ok.mp hother
    cases hsame
    rw [filteredText_encode_eq_ok] at hencoded hencoded'
    exact hencoded.symm.trans hencoded'

/-- A byte that is no text in UTF-8 has a written form, which is refused. -/
example : filteredText {} "b64decode" "/w==" = .error .invalidOperation := by
  cbv

end Runsheet
