import LiveSchema.Proofs.Text
import LiveSchema.Schema.Flags
import Mathlib.Algebra.Group.Nat.Defs

/-!
# The text of bit flags

A set of flags is read back from its text: the names and the bits without a name stand for exactly the
bits that are set.
-/

namespace LiveSchema

/-! ## Bits -/

/-- Taking away the power of a bit that is set clears the bit. -/
theorem testBit_sub_two_pow {n place : Nat} (h : n.testBit place = true) (i : Nat) :
    (n - 2 ^ place).testBit i = (n.testBit i && decide (place ≠ i)) := by
  obtain ⟨m, rfl⟩ : ∃ m, n = 2 ^ place + m :=
    ⟨n - 2 ^ place, (Nat.add_sub_cancel' (Nat.ge_two_pow_of_testBit h)).symm⟩
  rw [Nat.add_sub_cancel_left]
  rcases Nat.lt_trichotomy i place with hlt | rfl | hgt
  · simp [Nat.testBit_two_pow_add_gt hlt, Nat.ne_of_gt hlt]
  · rw [Nat.testBit_two_pow_add_eq] at h
    simpa using h
  · -- above the bit both numbers have the same quotient
    rw [Nat.testBit_two_pow_add_eq, Bool.not_eq_true'] at h
    have hlow : m % 2 ^ (place + 1) < 2 ^ place := by
      refine Nat.lt_of_not_le fun hle => ?_
      have hbit : (m % 2 ^ (place + 1)).testBit place = true :=
        Nat.testBit_of_two_pow_le_and_two_pow_add_one_gt hle
          (Nat.mod_lt _ (Nat.two_pow_pos _))
      simp [h] at hbit
    have hquotient : (2 ^ place + m) / 2 ^ (place + 1) = m / 2 ^ (place + 1) := by
      have hsplit := Nat.div_add_mod m (2 ^ (place + 1))
      have hpow : 2 ^ (place + 1) = 2 ^ place + 2 ^ place := by rw [Nat.pow_succ]; omega
      have hsum : 2 ^ place + m =
          2 ^ (place + 1) * (m / 2 ^ (place + 1)) + (2 ^ place + m % 2 ^ (place + 1)) := by omega
      have hrest : (2 ^ place + m % 2 ^ (place + 1)) / 2 ^ (place + 1) = 0 :=
        Nat.div_eq_of_lt (by omega)
      rw [hsum, Nat.mul_add_div (Nat.two_pow_pos _), hrest, Nat.add_zero]
    obtain ⟨k, rfl⟩ : ∃ k, i = k + (place + 1) := ⟨i - (place + 1), by omega⟩
    rw [← Nat.testBit_div_two_pow, ← Nat.testBit_div_two_pow, hquotient]
    have hne : place ≠ k + (place + 1) := by omega
    simp [hne]

namespace FlagNames

variable {names : FlagNames} {width bits : Nat}

/-- The names stand for different bits and are read as these. -/
structure Readable (names : FlagNames) (width : Nat) : Prop where
  solid : ∀ flag ∈ names, Text.Solid flag.1.toList
  read : ∀ flag ∈ names, partBits? names width flag.1.toList = some (2 ^ flag.2)
  places : (names.map Prod.snd).Nodup

/-- The bits that are left when those of the flags are taken away. -/
def without (flags : FlagNames) (bits : Nat) : Nat :=
  flags.foldl (fun left flag => left - Nat.pow 2 flag.2) bits

theorem testBit_without {flags : FlagNames} (hplaces : (flags.map Prod.snd).Nodup)
    (hset : ∀ flag ∈ flags, bits.testBit flag.2 = true) (i : Nat) :
    (without flags bits).testBit i = (bits.testBit i && decide (i ∉ flags.map Prod.snd)) := by
  induction flags generalizing bits with
  | nil => simp [without]
  | cons flag rest ih =>
      obtain ⟨hnot, hrest⟩ := List.nodup_cons.mp hplaces
      have hflag := hset flag List.mem_cons_self
      have hclear := testBit_sub_two_pow hflag
      have hset' : ∀ other ∈ rest, (bits - 2 ^ flag.2).testBit other.2 = true := by
        intro other hother
        have hne : flag.2 ≠ other.2 := fun h => hnot (h ▸ List.mem_map_of_mem hother)
        simp [hclear, hset other (List.mem_cons_of_mem _ hother), hne]
      have hstep : without (flag :: rest) bits = without rest (bits - 2 ^ flag.2) := rfl
      rw [hstep, ih hrest hset', hclear]
      simp only [List.map_cons, List.mem_cons, not_or, Bool.decide_and, ne_eq, Bool.and_assoc,
        eq_comm]

/-- The bits that names and the bits without a name stand for. -/
theorem testBit_foldl_or (values : List Nat) (start i : Nat) :
    (values.foldl (fun sofar value => sofar ||| value) start).testBit i =
      (start.testBit i || values.any fun value => value.testBit i) := by
  induction values generalizing start with
  | nil => simp
  | cons value rest ih => simp [ih, Nat.testBit_or, Bool.or_assoc]

/-- Parts that are read one by one are read together. -/
theorem foldl_partBits? {parts : List (List Char)} {values : List Nat} (start : Nat)
    (h : parts.map (partBits? names width) = values.map some) :
    parts.foldl (fun sofar part => do return (← sofar) ||| (← partBits? names width part))
      (some start) = some (values.foldl (fun sofar value => sofar ||| value) start) := by
  induction parts generalizing values start with
  | nil =>
      obtain rfl : values = [] := by simpa using h.symm
      rfl
  | cons part rest ih =>
      cases values with
      | nil => exact absurd h (by simp)
      | cons value values =>
          obtain ⟨hpart, hrest⟩ := List.cons.inj h
          rw [List.foldl_cons, List.foldl_cons, ← ih _ hrest]
          simp [hpart]

/-- What stands behind the names of the flags: nothing, or the bits that no name stands for. -/
def Remains (set : FlagNames) (bits : Nat) (tail : List String) (values : List Nat) : Prop :=
  without set bits = 0 ∧ tail = [] ∧ values = [] ∨
    without set bits ≠ 0 ∧ tail = ["0x" ++ String.ofList (Text.toHex (without set bits))] ∧
      values = [without set bits]

/-- The flags whose bits are set, and the bits that no name stands for. -/
theorem parts_render (names : FlagNames) (bits : Nat) :
    ∃ set tail values, set = names.filter (fun flag => bits.testBit flag.2) ∧
      names.render bits = " | ".intercalate (set.map Prod.fst ++ tail) ∧
        Remains set bits tail values := by
  have hrender : names.render bits = " | ".intercalate
      ((names.filter fun flag => bits.testBit flag.2).map Prod.fst ++
        if without (names.filter fun flag => bits.testBit flag.2) bits = 0 then []
        else ["0x" ++ String.ofList
          (Text.toHex (without (names.filter fun flag => bits.testBit flag.2) bits))]) := rfl
  by_cases hnone : without (names.filter fun flag => bits.testBit flag.2) bits = 0
  · rw [if_pos hnone] at hrender
    exact ⟨_, [], [], rfl, hrender, Or.inl ⟨hnone, rfl, rfl⟩⟩
  · rw [if_neg hnone] at hrender
    exact ⟨_, _, _, rfl, hrender, Or.inr ⟨hnone, rfl, rfl⟩⟩

theorem solid_hex (n : Nat) : Text.Solid ("0x" ++ String.ofList (Text.toHex n)).toList := by
  refine ⟨by simp, fun c hc => ?_⟩
  simp only [String.toList_append, String.toList_ofList] at hc
  rcases List.mem_append.mp hc with hc | hc
  · have hmark : c = '0' ∨ c = 'x' := by simpa using hc
    rcases hmark with rfl | rfl <;> decide
  · obtain ⟨d, hd, rfl⟩ := Text.mem_toHex hc
    have hdigit := Text.solid_digitChar d hd
    exact ⟨hdigit.1, hdigit.2.1⟩

theorem partBits?_hex {n : Nat} (h : n < 2 ^ width) :
    partBits? names width ("0x" ++ String.ofList (Text.toHex n)).toList = some n := by
  have hhex := Text.hexadecimal?_toHex n
  cases hdigits : Text.toHex n with
  | nil => exact absurd hdigits Nat.toDigits_ne_nil
  | cons first rest =>
      obtain ⟨d, hd, rfl⟩ := Text.mem_toHex (c := first) (by rw [hdigits]; exact List.mem_cons_self)
      have hplus := (Text.solid_digitChar d hd).2.2
      rw [hdigits] at hhex
      simp [partBits?, hplus, hhex, h]

section Remains

variable {set : FlagNames} {tail : List String} {values : List Nat}

theorem Remains.solid (h : Remains set bits tail values) : ∀ text ∈ tail, Text.Solid text.toList := by
  rcases h with ⟨-, rfl, -⟩ | ⟨-, rfl, -⟩
  · simp
  · intro text htext
    rw [List.mem_singleton.mp htext]
    exact solid_hex _

theorem Remains.map_partBits? (h : Remains set bits tail values)
    (hbelow : without set bits < 2 ^ width) :
    (tail.map String.toList).map (partBits? names width) = values.map some := by
  rcases h with ⟨-, rfl, rfl⟩ | ⟨-, rfl, rfl⟩
  · rfl
  · exact congrArg (fun part => [part]) (partBits?_hex hbelow)

/-- The bits of the names and those that remain are all bits. -/
theorem Remains.foldl_or (h : Remains set bits tail values)
    (hset : ∀ flag ∈ set, bits.testBit flag.2 = true) (hplaces : (set.map Prod.snd).Nodup) :
    (set.map (fun flag : String × Nat => 2 ^ flag.2) ++ values).foldl
      (fun sofar value => sofar ||| value) 0 = bits := by
  refine Nat.eq_of_testBit_eq fun i => ?_
  rw [testBit_foldl_or, Nat.zero_testBit, Bool.false_or, List.any_append]
  have hvalues : values.any (fun value => value.testBit i) = (without set bits).testBit i := by
    rcases h with ⟨hnone, -, rfl⟩ | ⟨-, -, rfl⟩
    · simp [hnone]
    · simp
  rw [hvalues, testBit_without hplaces hset, Bool.eq_iff_iff]
  simp only [List.any_map, Bool.or_eq_true, List.any_eq_true, Function.comp_apply,
    Nat.testBit_two_pow, decide_eq_true_eq, Bool.and_eq_true, List.mem_map]
  constructor
  · rintro (⟨flag, hflag, rfl⟩ | ⟨hi, -⟩)
    · exact hset flag hflag
    · exact hi
  · intro hi
    by_cases hnamed : ∃ flag, flag ∈ set ∧ flag.2 = i
    · exact Or.inl hnamed
    · exact Or.inr ⟨hi, hnamed⟩

end Remains

/-- The text of a set of flags spells its bits. -/
theorem Readable.parse?_render (hnames : names.Readable width) (hbits : bits < 2 ^ width) :
    names.parse? width (names.render bits) = some bits := by
  obtain ⟨set, tail, values, hset, hrender, htail⟩ := parts_render names bits
  have hmem : ∀ flag ∈ set, flag ∈ names ∧ bits.testBit flag.2 = true := by
    intro flag hflag
    rw [hset, List.mem_filter] at hflag
    exact hflag
  have hplaces : (set.map Prod.snd).Nodup := by
    rw [hset]
    exact hnames.places.sublist (List.filter_sublist.map _)
  have hbelow : without set bits < 2 ^ width := by
    refine Nat.lt_pow_two_of_testBit _ fun i hi => ?_
    rw [testBit_without hplaces fun flag hflag => (hmem flag hflag).2,
      Nat.testBit_lt_two_pow (Nat.lt_of_lt_of_le hbits (Nat.pow_le_pow_right (by decide) hi)),
      Bool.false_and]
  have hjoined : (names.render bits).toList =
      Text.joined ((set.map Prod.fst ++ tail).map String.toList) := by
    rw [hrender, Text.toList_intercalate]
  -- every part is read as the bits it stands for
  have hread : ((set.map Prod.fst ++ tail).map String.toList).map (partBits? names width) =
      (set.map (fun flag : String × Nat => 2 ^ flag.2) ++ values).map some := by
    have hsetRead : ∀ flag ∈ set, partBits? names width flag.1.toList = some (2 ^ flag.2) :=
      fun flag hflag => hnames.read flag (hmem flag hflag).1
    rw [List.map_append, List.map_append, List.map_append, htail.map_partBits? hbelow,
      List.map_map, List.map_map, List.map_map]
    exact congrArg (· ++ values.map some) (List.map_congr_left hsetRead)
  have hsolid : ∀ part ∈ (set.map Prod.fst ++ tail).map String.toList, Text.Solid part := by
    intro part hpart
    obtain ⟨text, htext, rfl⟩ := List.mem_map.mp hpart
    rcases List.mem_append.mp htext with htext | htext
    · obtain ⟨flag, hflag, rfl⟩ := List.mem_map.mp htext
      exact hnames.solid flag (hmem flag hflag).1
    · exact htail.solid text htext
  -- and together these are all bits
  have htotal := htail.foldl_or (fun flag hflag => (hmem flag hflag).2) hplaces
  unfold parse?
  rw [hjoined]
  by_cases hempty : (set.map Prod.fst ++ tail).map String.toList = []
  · rw [hempty] at hread ⊢
    have hnone : set.map (fun flag : String × Nat => 2 ^ flag.2) ++ values = [] := by
      simpa using hread.symm
    rw [hnone] at htotal
    simp [Text.joined, Text.trim, Text.trimStart, ← htotal]
  · rw [if_neg (Text.trim_joined_ne_nil hempty hsolid), Text.splitOn_joined hempty hsolid,
      foldl_partBits? 0 hread, htotal]

end FlagNames

/-! ## The three kinds of flags -/

theorem FieldFlags.parse?_render (flags : FieldFlags) :
    FieldFlags.parse? flags.render = some flags := by
  have hreadable : FlagNames.Readable names 16 := ⟨by decide, by decide, by decide⟩
  rw [parse?, render, hreadable.parse?_render flags.bits.toNat_lt, Option.map_some]
  simp

theorem RecordFlags.parse?_render (flags : RecordFlags) :
    RecordFlags.parse? flags.render = some flags := by
  have hreadable : FlagNames.Readable names 8 := ⟨by decide, by decide, by decide⟩
  rw [parse?, render, hreadable.parse?_render flags.bits.toNat_lt, Option.map_some]
  simp

theorem ParameterFlags.parse?_render (flags : ParameterFlags) :
    ParameterFlags.parse? flags.render = some flags := by
  have hreadable : FlagNames.Readable names 8 := ⟨by decide, by decide, by decide⟩
  rw [parse?, render, hreadable.parse?_render flags.bits.toNat_lt, Option.map_some]
  simp

end LiveSchema
