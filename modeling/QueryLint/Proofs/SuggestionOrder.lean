import Mathlib.Data.List.Lex
import Mathlib.Data.List.Sort
import Mathlib.Data.Prod.Lex
import QueryLint.Check.Suggestion
import QueryLint.Proofs.Alignments
import QueryLint.Proofs.StringDecoding

/-!
Suggestions in their order. An option is suggested if it is near enough, and suggestions are ranked
by their distance from the input and, where that is the same, by their code points. No two options
have the same rank, so the suggestions are told by the set of options alone; and since distances are
the same in both directions, so is being near.
-/

namespace QueryLint

theorem CodePoint.toNat_injective : Function.Injective CodePoint.toNat :=
  Function.LeftInverse.injective ofNat_toNat

theorem Text.lt_iff_map_toNat_lt (first second : Text) :
    first < second ↔ first.map CodePoint.toNat < second.map CodePoint.toNat := by
  induction first generalizing second with
  | nil => cases second <;> simp
  | cons point first ih =>
    cases second with
    | nil => simp
    | cons other second =>
      simp only [List.map_cons, List.cons_lt_cons_iff, ih, CodePoint.toNat_injective.eq_iff]
      rfl

/-! Scored options -/

/-- Scored options are ranked by their distance and then by their code points. -/
def scoredRank (entry : Nat × Text) : ℕ ×ₗ List ℕ :=
  toLex (entry.1, entry.2.map CodePoint.toNat)

theorem scoredRank_injective : Function.Injective scoredRank := by
  rintro ⟨distance, option⟩ ⟨distance', option'⟩ hsame
  obtain ⟨hdistance, hpoints⟩ := Prod.mk.inj (toLex.injective hsame)
  exact Prod.ext hdistance (CodePoint.toNat_injective.list_map hpoints)

theorem scoredBefore_iff {first second : Nat × Text} :
    scoredBefore first second = true ↔ scoredRank first < scoredRank second := by
  simp only [scoredBefore, scoredRank, Prod.Lex.toLex_lt_toLex, Bool.or_eq_true, Bool.and_eq_true,
    decide_eq_true_eq, beq_iff_eq, Text.lt_iff_map_toNat_lt]

theorem mem_insertScored {entry other : Nat × Text} {entries : List (Nat × Text)} :
    other ∈ insertScored entry entries ↔ other = entry ∨ other ∈ entries := by
  induction entries with
  | nil => simp [insertScored]
  | cons head tail ih =>
    rw [insertScored]
    split_ifs with hbefore hsame
    · exact List.mem_cons
    · simp [hsame]
    · rw [List.mem_cons, ih, List.mem_cons, or_left_comm]

theorem pairwise_insertScored (entry : Nat × Text) {entries : List (Nat × Text)}
    (h : entries.Pairwise fun first second => scoredRank first < scoredRank second) :
    (insertScored entry entries).Pairwise
      fun first second => scoredRank first < scoredRank second := by
  induction entries with
  | nil => exact List.pairwise_singleton _ _
  | cons head tail ih =>
    obtain ⟨hhead, htail⟩ := List.pairwise_cons.mp h
    rw [insertScored]
    split_ifs with hbefore hsame
    · have hfirst := scoredBefore_iff.mp hbefore
      refine List.pairwise_cons.mpr ⟨fun other hother => ?_, h⟩
      rcases List.mem_cons.mp hother with rfl | hother
      · exact hfirst
      · exact hfirst.trans (hhead other hother)
    · exact h
    · -- ranks are told apart, so what is neither before the head nor the head comes behind it
      have hbehind : scoredRank head < scoredRank entry := by
        apply lt_of_le_of_ne
        · rwa [scoredBefore_iff, not_lt] at hbefore
        · exact fun hrank => hsame (scoredRank_injective hrank).symm
      refine List.pairwise_cons.mpr ⟨fun other hother => ?_, ih htail⟩
      rcases mem_insertScored.mp hother with rfl | hother
      · exact hbehind
      · exact hhead other hother

theorem mem_foldr_insertScored {entries : List (Nat × Text)} {entry : Nat × Text} :
    entry ∈ entries.foldr insertScored [] ↔ entry ∈ entries := by
  induction entries with
  | nil => rfl
  | cons head tail ih => rw [List.foldr_cons, mem_insertScored, ih, List.mem_cons]

theorem pairwise_foldr_insertScored (entries : List (Nat × Text)) :
    (entries.foldr insertScored []).Pairwise
      fun first second => scoredRank first < scoredRank second := by
  induction entries with
  | nil => exact List.Pairwise.nil
  | cons head tail ih => exact pairwise_insertScored head ih

/-! Suggestions -/

theorem isNear_iff {input option : Text} :
    isNear input option = true ↔
      editDistance input option ≤ max (max (input.length / 2) (option.length / 2)) 1 :=
  decide_eq_true_iff

theorem isNear_comm (input option : Text) : isNear input option = isNear option input := by
  rw [Bool.eq_iff_iff, isNear_iff, isNear_iff, editDistance_comm, max_comm (input.length / 2)]

theorem isNear_self (input : Text) : isNear input input = true := by
  rw [isNear_iff, editDistance_eq_zero_iff.mpr rfl]
  exact Nat.zero_le _

theorem mem_suggestions {input option : Text} {options : List Text} :
    option ∈ suggestions input options ↔ option ∈ options ∧ isNear input option = true := by
  simp [suggestions, mem_foldr_insertScored]

theorem pairwise_suggestions (input : Text) (options : List Text) :
    (suggestions input options).Pairwise fun first second =>
      scoredRank (editDistance input first, first) <
        scoredRank (editDistance input second, second) := by
  rw [suggestions, List.pairwise_map]
  refine (pairwise_foldr_insertScored _).imp_of_mem fun {first second} hfirst hsecond hrank => ?_
  obtain ⟨option, -, rfl⟩ := List.mem_map.mp (mem_foldr_insertScored.mp hfirst)
  obtain ⟨other, -, rfl⟩ := List.mem_map.mp (mem_foldr_insertScored.mp hsecond)
  exact hrank

/-- Nothing ranks before the input itself. -/
theorem head?_suggestions {input : Text} {options : List Text} (h : input ∈ options) :
    (suggestions input options).head? = some input := by
  have hmem := mem_suggestions.mpr ⟨h, isNear_self input⟩
  have hsorted := pairwise_suggestions input options
  cases hall : suggestions input options with
  | nil => simp [hall] at hmem
  | cons first rest =>
    rw [hall] at hmem hsorted
    rcases List.mem_cons.mp hmem with rfl | hlater
    · rfl
    · have hrank := (List.pairwise_cons.mp hsorted).1 input hlater
      rw [scoredRank, scoredRank, Prod.Lex.toLex_lt_toLex,
        editDistance_eq_zero_iff.mpr (rfl : input = input)] at hrank
      rcases hrank with hnear | ⟨hsame, hpoints⟩
      · exact absurd hnear (Nat.not_lt_zero _)
      · rw [editDistance_eq_zero_iff.mp hsame] at hpoints
        exact absurd hpoints (lt_irrefl _)

/-- The options that are suggested are those whose distance from the input is at most half the
length of the longer of both, or one. They come in the order of their distances and, at the same
distance, of their code points, each of them once, whatever the order and number of the options; the
input itself comes first. A text is suggested for another if and only if that one is suggested for
it. -/
theorem suggestions_canonical (input : Text) (options : List Text) :
    (∀ option, option ∈ suggestions input options ↔ option ∈ options ∧
      editDistance input option ≤ max (max (input.length / 2) (option.length / 2)) 1) ∧
    ((suggestions input options).Pairwise fun first second =>
      toLex (editDistance input first, first.map CodePoint.toNat) <
        toLex (editDistance input second, second.map CodePoint.toNat)) ∧
    (suggestions input options).Nodup ∧
    (∀ others, (∀ option, option ∈ others ↔ option ∈ options) →
      suggestions input others = suggestions input options) ∧
    (input ∈ options → (suggestions input options).head? = some input) ∧
    (∀ option ∈ options, ∀ others, input ∈ others →
      (option ∈ suggestions input options ↔ input ∈ suggestions option others)) := by
  refine ⟨fun option => ?_, pairwise_suggestions input options,
    (pairwise_suggestions input options).nodup, fun others hsame => ?_, head?_suggestions,
    fun option hoption others hinput => ?_⟩
  · rw [mem_suggestions, isNear_iff]
  · apply (pairwise_suggestions input others).eq_of_mem_iff (pairwise_suggestions input options)
    intro option
    rw [mem_suggestions, mem_suggestions, hsame]
  · rw [mem_suggestions, mem_suggestions, isNear_comm]
    simp only [hoption, hinput, true_and]

/-- An option twice, one that differs in case, and the input itself. -/
theorem suggestions_canonical_repeated :
    let input := Text.ofString "abc"
    let options := ["abx", "ABC", "xyz", "abc", "abx"].map Text.ofString
    suggestions input options = ["abc", "ABC", "abx"].map Text.ofString ∧
      suggestions input (options.reverse ++ options) = suggestions input options ∧
      (suggestions input options).head? = some input ∧
      input ∈ suggestions (Text.ofString "abx") [input] := by
  intro input options
  have hlisted : suggestions input options = ["abc", "ABC", "abx"].map Text.ofString := by
    decide +kernel
  obtain ⟨-, -, -, hset, hhead, hboth⟩ := suggestions_canonical input options
  refine ⟨hlisted, hset _ fun option => ?_, hhead (by decide +kernel), ?_⟩
  · rw [List.mem_append, List.mem_reverse, or_self]
  · refine (hboth (Text.ofString "abx") (by decide +kernel) [input] (.head _)).mp ?_
    rw [hlisted]
    decide +kernel

end QueryLint
