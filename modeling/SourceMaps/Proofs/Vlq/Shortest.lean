import Mathlib.Data.List.DropRight
import SourceMaps.Proofs.Vlq

/-!
# Base64 VLQ: shortest spellings

A number has many texts, since groups of zeros at its end and the sign of zero count for nothing.
What is written is the shortest of them, so encoding what was decoded leaves out just these.

## Main definitions

* `Vlq.mark`: groups as digits, all but the last marked as continued.
* `Vlq.shortest`, `Vlq.respell`: a number, and every number of a text, without what counts for
  nothing.
* `Vlq.IsShortest`: the numbers in which nothing is to be left out.
* `Vlq.IsPadded`, `Vlq.IsNegativeZero`: the two ways in which something is.

## Main statements

* `Vlq.shortest_eq`: the shortest spelling is that of the integer.
* `Vlq.length_shortest_le`: no text of a number with the same integer is shorter.
* `Vlq.shortest_eq_self_iff`, `Vlq.respell_eq_self_iff`: what stays as it is.
* `Vlq.encode_of_decode`: integers that were read are written in their shortest spellings.
* `Vlq.encode_decoded`: how a text compares with what is written for its integers.
-/

namespace SourceMaps

theorem map_eq_self_iff {α : Type} {f : α → α} {items : List α} :
    items.map f = items ↔ ∀ a ∈ items, f a = a := by
  have h := List.map_inj_left (l := items) (f := f) (g := id)
  rwa [List.map_id] at h

namespace Vlq

/-- Groups as digits, all but the last marked as continued. -/
def mark : List Nat → List Nat
  | [] => []
  | [g] => [g]
  | g :: h :: rest => (g + 32) :: mark (h :: rest)

/-- The shortest spelling of the integer that a number stands for: the groups of zeros at its end
are left out, and negative zero is zero. -/
def shortest (number : Text) : Text :=
  let groups := (groupsOf number).rdropWhile (· = 0)
  if groups = [] ∨ groups = [1] then "A" else (mark groups).map character

/-- A text with every number in its shortest spelling. -/
def respell (text : Text) : Text := (numbers text).flatMap shortest

/-- Numbers that do not end in a group of zeros behind another group and are not negative zero. -/
def IsShortest (number : Text) : Prop :=
  number ≠ "B" ∧ (number.getLast? = some ↑ 'A' → number = "A")

/-! ### Groups -/

theorem lt_of_mem_groupsOf {n : Text} {g : Nat} (h : g ∈ groupsOf n) : g < 32 := by
  obtain ⟨c, -, rfl⟩ := List.mem_map.mp h
  exact Nat.mod_lt _ (by decide)

theorem length_groupsOf (n : Text) : (groupsOf n).length = n.length := List.length_map _

theorem groupsOf_ne_nil {n : Text} (h : IsNumber n) : groupsOf n ≠ [] := by
  simpa [groupsOf] using h.ne_nil

theorem length_mark (gs : List Nat) : (mark gs).length = gs.length := by
  induction gs with
  | nil => rfl
  | cons g rest ih =>
    cases rest with
    | nil => rfl
    | cons h rest =>
      rw [mark, List.length_cons, ih]
      rfl

/-- Groups that do not end in zero are those of their number. -/
theorem groups_ofDigits {gs : List Nat} (hne : gs ≠ []) (hlt : ∀ g ∈ gs, g < 32)
    (hlast : gs.getLast? ≠ some 0) :
    0 < Nat.ofDigits 32 gs ∧ groups (Nat.ofDigits 32 gs) = mark gs := by
  induction gs with
  | nil => exact absurd rfl hne
  | cons g rest ih =>
    have hg : g < 32 := hlt g (by simp)
    cases rest with
    | nil =>
      have hpos : g ≠ 0 := by simpa using hlast
      rw [Nat.ofDigits_singleton, groups, if_pos hg]
      exact ⟨Nat.pos_of_ne_zero hpos, rfl⟩
    | cons h rest =>
      obtain ⟨hpos, hgroups⟩ := ih (by simp) (fun x hx => hlt x (List.mem_cons_of_mem g hx))
        (by rwa [List.getLast?_cons_cons] at hlast)
      have hcons : Nat.ofDigits 32 (g :: h :: rest) = g + 32 * Nat.ofDigits 32 (h :: rest) :=
        Nat.ofDigits_cons
      have hmod : (g + 32 * Nat.ofDigits 32 (h :: rest)) % 32 = g := by omega
      have hdiv : (g + 32 * Nat.ofDigits 32 (h :: rest)) / 32 = Nat.ofDigits 32 (h :: rest) := by
        omega
      rw [hcons, groups, if_neg (by omega), hmod, hdiv, hgroups]
      exact ⟨by omega, rfl⟩

theorem ofDigits_rdropWhile (gs : List Nat) :
    Nat.ofDigits 32 (gs.rdropWhile (· = 0)) = Nat.ofDigits 32 gs := by
  induction gs using List.reverseRecOn with
  | nil => rfl
  | append_singleton gs g ih =>
    by_cases hg : g = 0
    · rw [List.rdropWhile_concat_pos _ _ _ (by simpa using hg), ih, hg, Nat.ofDigits_append_zero]
    · rw [List.rdropWhile_concat_neg _ _ _ (by simpa using hg)]

theorem getLast?_rdropWhile (gs : List Nat) : (gs.rdropWhile (· = 0)).getLast? ≠ some 0 := by
  intro hlast
  have hne : gs.rdropWhile (· = 0) ≠ [] := by
    intro hnil
    rw [hnil] at hlast
    cases hlast
  have hzero := List.rdropWhile_last_not _ _ hne
  rw [List.getLast?_eq_getLast_of_ne_nil hne, Option.some.injEq] at hlast
  exact hzero (by simpa using hlast)

/-! ### The shortest spelling -/

/-- Only the sign of zero gets lost. -/
theorem zigzag_unzigzag (raw : Nat) : zigzag (unzigzag raw) = if raw = 1 then 0 else raw := by
  unfold zigzag unzigzag
  split <;> split <;> split <;> omega

/-- Leaving out what counts for nothing spells the integer anew. -/
theorem shortest_eq (number : Text) :
    shortest number = (groups (zigzag (value number))).map character := by
  let gs := (groupsOf number).rdropWhile (· = 0)
  have hraw : raw number = Nat.ofDigits 32 gs := (ofDigits_rdropWhile _).symm
  have hfront : gs <+: groupsOf number := List.rdropWhile_prefix _ _
  have hlt : ∀ g ∈ gs, g < 32 := fun g hg => lt_of_mem_groupsOf (hfront.subset hg)
  rw [value, zigzag_unzigzag, hraw]
  show (if gs = [] ∨ gs = [1] then _ else _) = _
  by_cases hzero : gs = [] ∨ gs = [1]
  · have hnone : (if Nat.ofDigits 32 gs = 1 then 0 else Nat.ofDigits 32 gs) = 0 := by
      rcases hzero with h | h <;> rw [h] <;> rfl
    rw [if_pos hzero, hnone, groups, if_pos (by decide)]
    rfl
  · obtain ⟨hne, hone⟩ := not_or.mp hzero
    obtain ⟨-, hgroups⟩ := groups_ofDigits hne hlt (getLast?_rdropWhile _)
    have hlarge : Nat.ofDigits 32 gs ≠ 1 := by
      -- The only groups of the number one are `[1]`.
      intro h
      rw [h, groups, if_pos (by decide)] at hgroups
      have hlength := congrArg List.length hgroups
      rw [length_mark] at hlength
      obtain ⟨g, hg⟩ := List.length_eq_one_iff.mp hlength.symm
      rw [hg] at hgroups hone
      exact hone hgroups.symm
    rw [if_neg hzero, if_neg hlarge, hgroups]

/-- The shortest spelling of a number spells the same integer. -/
theorem isNumber_shortest (number : Text) :
    IsNumber (shortest number) ∧ value (shortest number) = value number := by
  obtain ⟨hnumber, hraw⟩ := isNumber_groups (zigzag (value number))
  rw [shortest_eq]
  refine ⟨hnumber, ?_⟩
  rw [value, hraw, unzigzag_zigzag]

theorem encodeInt_value {number : Text} (h : InRange (value number)) :
    encodeInt (value number) = .ok (shortest number) :=
  encodeInt_eq_ok_iff.mpr ⟨h, shortest_eq number⟩

theorem length_shortest (n : Text) :
    (shortest n).length = max 1 ((groupsOf n).rdropWhile (· = 0)).length := by
  rw [shortest]
  split
  · next h => rcases h with h | h <;> rw [h] <;> rfl
  · next h =>
    have hpos := List.length_pos_iff.mpr (not_or.mp h).1
    rw [List.length_map, length_mark, max_eq_right hpos]

/-- A shortest spelling is no longer than any number that stands for the same integer. -/
theorem length_shortest_le {n n' : Text} (h : IsNumber n') (hvalue : value n = value n') :
    (shortest n).length ≤ n'.length := by
  have hsame : shortest n = shortest n' := by rw [shortest_eq, shortest_eq, hvalue]
  have hpos := List.length_pos_iff.mpr h.ne_nil
  have hfront := (List.rdropWhile_prefix (· = 0) (groupsOf n')).length_le
  rw [length_groupsOf] at hfront
  rw [hsame, length_shortest]
  exact max_le hpos hfront

/-- Integers that were read are written again in their shortest spellings. -/
theorem encode_of_decode {text : Text} {values : List Int} (h : decode text = .ok values) :
    encode values = .ok (respell text) := by
  obtain ⟨ns, hns, rfl, rfl⟩ := decode_eq_ok_iff.mp h
  rw [respell, numbers_flatten fun n hn => (hns n hn).1]
  clear h
  induction ns with
  | nil => rfl
  | cons n ns ih =>
    obtain ⟨⟨-, hrange⟩, hrest⟩ := List.forall_mem_cons.mp hns
    exact encode_cons_iff.mpr ⟨_, _, encodeInt_value hrange, ih hrest, rfl⟩

/-! ### What stays as it is -/

theorem map_character_mark {n : Text} (h : IsNumber n) :
    (mark (groupsOf n)).map character = n := by
  induction h with
  | @last c d hc hd =>
    obtain ⟨-, rfl⟩ := digit?_eq_some_iff.mp hc
    have hgroups : groupsOf [character d] = [d] := by
      rw [groupsOf, List.map_singleton, digit_eq hc, Nat.mod_eq_of_lt hd]
    rw [hgroups]
    rfl
  | @more c d n hc hd hn ih =>
    obtain ⟨hlt, rfl⟩ := digit?_eq_some_iff.mp hc
    obtain ⟨g, rest, hrest⟩ := List.exists_cons_of_ne_nil (groupsOf_ne_nil hn)
    have hgroups : groupsOf (character d :: n) = d % 32 :: g :: rest := by
      rw [← hrest, groupsOf, List.map_cons, digit_eq hc]
      rfl
    have hdigit : d % 32 + 32 = d := by omega
    rw [hgroups, mark, List.map_cons, hdigit, ← hrest, ih]

/-- A number ends in a group of zeros if its last character is that of zero. -/
theorem getLast?_groupsOf {n : Text} (h : IsNumber n) :
    (groupsOf n).getLast? = some 0 ↔ n.getLast? = some ↑ 'A' := by
  induction h with
  | @last c d hc hd =>
    obtain ⟨-, rfl⟩ := digit?_eq_some_iff.mp hc
    have hmod : digit (character d) % 32 = d := by rw [digit_eq hc, Nat.mod_eq_of_lt hd]
    simp only [groupsOf, List.map_singleton, List.getLast?_singleton, hmod, Option.some.injEq]
    constructor
    · rintro rfl
      rfl
    · intro hcharacter
      have hzero : digit? (character d) = some 0 := by rw [hcharacter]; rfl
      rw [hc] at hzero
      exact Option.some.inj hzero
  | @more c d n _ _ hn ih =>
    obtain ⟨c', n', rfl⟩ := List.exists_cons_of_ne_nil hn.ne_nil
    simpa [groupsOf, List.getLast?_cons_cons] using ih

/-- Without the group of zeros at its end a number of several groups is shorter. -/
theorem length_shortest_lt {n : Text} (h : IsNumber n) (hlast : n.getLast? = some ↑ 'A')
    (hn : n ≠ "A") : (shortest n).length < n.length := by
  obtain ⟨gs, hgs⟩ : ∃ gs, groupsOf n = gs ++ [0] :=
    ⟨_, (List.dropLast_append_getLast? 0 ((getLast?_groupsOf h).mpr hlast)).symm⟩
  have hlength : n.length = gs.length + 1 := by
    rw [← length_groupsOf, hgs, List.length_append, List.length_singleton]
  have hlong : gs ≠ [] := by
    rintro rfl
    have hback := map_character_mark h
    rw [hgs] at hback
    exact hn hback.symm
  have hpos := List.length_pos_iff.mpr hlong
  have hfront := (List.rdropWhile_prefix (· = 0) gs).length_le
  rw [length_shortest, hgs, List.rdropWhile_concat_pos _ _ _ (by simp)]
  omega

/-- Only the numbers in which nothing is to be left out are their own shortest spellings. -/
theorem shortest_eq_self_iff {n : Text} (h : IsNumber n) : shortest n = n ↔ IsShortest n := by
  by_cases hlast : n.getLast? = some ↑ 'A'
  · constructor
    · intro hself
      have hone : n = "A" := by
        by_contra hn
        have hshorter := length_shortest_lt h hlast hn
        rw [hself] at hshorter
        exact Nat.lt_irrefl _ hshorter
      refine ⟨?_, fun _ => hone⟩
      rw [hone]
      decide
    · rintro ⟨-, hone⟩
      rw [hone hlast]
      decide
  · have hne := groupsOf_ne_nil h
    have hback := map_character_mark h
    have hkept : (groupsOf n).rdropWhile (· = 0) = groupsOf n := by
      refine List.rdropWhile_eq_self_iff.mpr fun hgroups hzero => hlast ?_
      rw [← getLast?_groupsOf h, List.getLast?_eq_getLast_of_ne_nil hgroups]
      simpa using hzero
    have hminus : groupsOf n = [1] ↔ n = "B" := by
      constructor
      · intro hone
        rw [hone] at hback
        exact hback.symm
      · rintro rfl
        rfl
    rw [shortest, hkept, hback]
    simp only [hne, hminus, false_or]
    by_cases hn : n = "B"
    · simp [hn, IsShortest]
      decide
    · simp [hn, IsShortest, hlast]

theorem respell_eq_self_iff {text : Text} {values : List Int} (h : decode text = .ok values) :
    respell text = text ↔ ∀ n ∈ numbers text, IsShortest n := by
  obtain ⟨ns, hns, rfl, -⟩ := decode_eq_ok_iff.mp h
  have hnumbers := numbers_flatten fun n hn => (hns n hn).1
  have hshortest : ∀ n ∈ ns.map shortest, IsNumber n :=
    List.forall_mem_map.mpr fun n _ => (isNumber_shortest n).1
  -- Both sides fall into their numbers in one way.
  have hsame : (ns.map shortest).flatten = ns.flatten ↔ ns.map shortest = ns := by
    refine ⟨fun heq => ?_, congrArg List.flatten⟩
    rw [← numbers_flatten hshortest, heq, hnumbers]
  rw [respell, hnumbers, List.flatMap_def, hsame, map_eq_self_iff]
  exact forall₂_congr fun n hn => shortest_eq_self_iff (hns n hn).1

/-! ### What gets lost -/

/-- Numbers that end in a group of zeros behind a group that is marked as continued. -/
def IsPadded (number : Text) : Prop :=
  ∃ before c, number = before ++ [c, ↑ 'A'] ∧ 32 ≤ digit c

/-- Numbers whose groups hold a sign and nothing else. -/
def IsNegativeZero (number : Text) : Prop := raw number = 1

theorem IsNumber.isPadded_iff {n : Text} (h : IsNumber n) :
    IsPadded n ↔ n.getLast? = some ↑ 'A' ∧ n ≠ "A" := by
  constructor
  · rintro ⟨before, c, rfl, -⟩
    refine ⟨by simp, fun hone => ?_⟩
    have hlength := congrArg List.length hone
    rw [List.length_append] at hlength
    exact absurd hlength (by simp [Text.ofString])
  · induction h with
    | last _ _ =>
      rintro ⟨hlast, hne⟩
      rw [List.getLast?_singleton, Option.some.injEq] at hlast
      exact absurd (congrArg (fun c => [c]) hlast) hne
    | @more c d n hc hd hn ih =>
      rintro ⟨hlast, -⟩
      obtain ⟨c', n', rfl⟩ := List.exists_cons_of_ne_nil hn.ne_nil
      rw [List.getLast?_cons_cons] at hlast
      by_cases hone : c' :: n' = "A"
      · exact ⟨[], c, by rw [hone]; rfl, by rwa [digit_eq hc]⟩
      · obtain ⟨before, marked, hsplit, hmarked⟩ := ih ⟨hlast, hone⟩
        exact ⟨c :: before, marked, by rw [hsplit, List.cons_append], hmarked⟩

/-- Without a group of zeros at its end, only one number is negative zero. -/
theorem IsNumber.eq_of_isNegativeZero {n : Text} (h : IsNumber n) (hzero : IsNegativeZero n)
    (hlast : n.getLast? ≠ some ↑ 'A') : n = "B" := by
  have hend : (groupsOf n).getLast? ≠ some 0 := mt (getLast?_groupsOf h).mp hlast
  obtain ⟨-, hgroups⟩ := groups_ofDigits (groupsOf_ne_nil h) (fun _ => lt_of_mem_groupsOf) hend
  have hone : Nat.ofDigits 32 (groupsOf n) = 1 := hzero
  rw [hone, groups, if_pos (by decide)] at hgroups
  rw [← map_character_mark h, ← hgroups]
  rfl

/-- A number is its own shortest spelling if neither padding nor the sign of zero is to be left
out. -/
theorem IsNumber.isShortest_iff {n : Text} (h : IsNumber n) :
    IsShortest n ↔ ¬IsPadded n ∧ ¬IsNegativeZero n := by
  rw [h.isPadded_iff, not_and_not_right, IsShortest, and_comm]
  refine and_congr_right fun hpadded => not_congr ⟨?_, fun hzero => ?_⟩
  · rintro rfl
    rfl
  · refine h.eq_of_isNegativeZero hzero fun hlast => ?_
    rw [hpadded hlast] at hzero
    cases hzero

/-- Only padding makes a number longer than its shortest spelling. -/
theorem length_shortest_eq_iff {n : Text} (h : IsNumber n) :
    (shortest n).length = n.length ↔ ¬IsPadded n := by
  rw [h.isPadded_iff]
  constructor
  · rintro hlength ⟨hlast, hne⟩
    exact absurd hlength (length_shortest_lt h hlast hne).ne
  · intro hpadded
    by_cases hminus : n = "B"
    · rw [hminus]
      decide
    · have hself : shortest n = n :=
        (shortest_eq_self_iff h).mpr ⟨hminus, not_and_not_right.mp hpadded⟩
      rw [hself]

/-- Parts that may get shorter but not longer keep the length of the whole only if each of them keeps
its own. -/
theorem length_flatten_map {f : Text → Text} {ns : List Text}
    (h : ∀ n ∈ ns, (f n).length ≤ n.length) :
    (ns.map f).flatten.length ≤ ns.flatten.length ∧
      ((ns.map f).flatten.length = ns.flatten.length ↔ ∀ n ∈ ns, (f n).length = n.length) := by
  induction ns with
  | nil => simp
  | cons n ns ih =>
    obtain ⟨hn, hns⟩ := List.forall_mem_cons.mp h
    obtain ⟨hle, hiff⟩ := ih hns
    simp only [List.map_cons, List.flatten_cons, List.length_append, List.forall_mem_cons, ← hiff]
    omega

/-- A text that can be decoded falls into numbers in one way, and its integers can be encoded. What
is written for them is read back, and no text with these integers is shorter. It is the text itself
exactly if no number is padded and none is negative zero, and it is as long as the text exactly if
no number is padded. -/
theorem encode_decoded {text : Text} {values : List Int} (h : decode text = .ok values) :
    text = (numbers text).flatten ∧ (∀ n ∈ numbers text, IsNumber n) ∧
    ∃ spelled, encode values = .ok spelled ∧ decode spelled = .ok values ∧
      spelled.length ≤ text.length ∧
      (∀ other, decode other = .ok values → spelled.length ≤ other.length) ∧
      (spelled = text ↔ ∀ n ∈ numbers text, ¬IsPadded n ∧ ¬IsNegativeZero n) ∧
      (spelled.length = text.length ↔ ∀ n ∈ numbers text, ¬IsPadded n) := by
  have hlength {other : Text} (hother : decode other = .ok values) :
      (respell other).length ≤ other.length ∧
        ((respell other).length = other.length ↔ ∀ n ∈ numbers other, ¬IsPadded n) := by
    obtain ⟨ns, hns, rfl, -⟩ := decode_eq_ok_iff.mp hother
    have hnumbers := numbers_flatten fun n hn => (hns n hn).1
    obtain ⟨hle, hiff⟩ := length_flatten_map fun n hn => length_shortest_le (hns n hn).1 rfl
    rw [respell, hnumbers, List.flatMap_def]
    exact ⟨hle, hiff.trans (forall₂_congr fun n hn => length_shortest_eq_iff (hns n hn).1)⟩
  have hspelled := encode_of_decode h
  have hself := respell_eq_self_iff h
  have hle := (hlength h).1
  have hiff := (hlength h).2
  obtain ⟨ns, hns, rfl, -⟩ := decode_eq_ok_iff.mp h
  have hnumbers := numbers_flatten fun n hn => (hns n hn).1
  rw [hnumbers] at hself hiff ⊢
  refine ⟨rfl, fun n hn => (hns n hn).1, _, hspelled, decode_of_encode hspelled, hle, ?_, ?_, hiff⟩
  · -- Another text with these integers is written anew in the same way.
    intro other hother
    have heq := Except.ok.inj (hspelled.symm.trans (encode_of_decode hother))
    rw [heq]
    exact (hlength hother).1
  · exact hself.trans (forall₂_congr fun n hn => (hns n hn).1.isShortest_iff)

/-- Zero with padding, negative zero with and without it, and a number that is shortest. -/
theorem encode_decoded_padded :
    decode "gAhABD" = .ok [0, 0, 0, -1] ∧
    ∃ spelled, encode [0, 0, 0, -1] = .ok spelled ∧ spelled.length ≤ 6 ∧ spelled ≠ "gAhABD" := by
  have h : decode "gAhABD" = .ok [0, 0, 0, -1] := rfl
  obtain ⟨-, -, spelled, hspelled, -, hle, -, hself, -⟩ := encode_decoded h
  have hmem : ("B" : Text) ∈ numbers "gAhABD" := by decide
  exact ⟨h, spelled, hspelled, hle, fun heq => (hself.mp heq "B" hmem).2 rfl⟩

end Vlq

end SourceMaps
