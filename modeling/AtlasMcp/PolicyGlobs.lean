import AtlasMcp.PolicyEngine
import AtlasMcp.StarPatterns

/-!
# What the patterns of the policy match

`globAny` knows two patterns with a star: the bare `*`, and the one with a star at its end.
Any other star is a letter of the pattern.  As a glob a pattern matches more: each star
stands for any string.

`globAny_iff_exists_globFits` says when the two agree.  They do not on `tenant:*/docs/*`, the
form in which the shipped policy and its documentation write a pattern for all tenants.
-/

namespace Auth

open PyText StarPatterns

/-- The value is the pattern with each star replaced by some string.  This is
what a glob means. -/
def GlobFits (pat value : String) : Prop := Fits '*' pat.toList value.toList

/-- The pattern has a star before its last character. -/
def hasInnerStar (pat : String) : Bool := '*' ∈ pat.toList.dropLast

/-- The value is the pattern itself, or starts with what the pattern has
before a star at its end; no other star is special. -/
def TakenLiterally (pat value : String) : Prop :=
  pat = value ∨ ∃ start, pat.toList = start ++ ['*'] ∧ start <+: value.toList

theorem endsWith_star_iff (pat : String) :
    endsWith pat "*" = true ↔ ∃ start, pat.toList = start ++ ['*'] := by
  rw [endsWith, List.isSuffixOf_iff_suffix]
  exact exists_congr fun start => eq_comm

/-- What the policy takes is what its patterns take literally, but for a star
at the end. -/
theorem globAny_iff_takenLiterally (patterns : List String) (value : String) :
    globAny patterns value = true ↔ ∃ pat ∈ patterns, TakenLiterally pat value := by
  simp only [globAny, List.any_eq_true, Bool.or_eq_true, Bool.and_eq_true, decide_eq_true_eq,
    endsWith_star_iff, startsWith, List.isPrefixOf_iff_prefix, String.toList_ofList]
  refine exists_congr fun pat => and_congr_right fun _ => ?_
  constructor
  · rintro ((rfl | heq) | ⟨⟨start, hpat⟩, hprefix⟩)
    · exact Or.inr ⟨[], rfl, List.nil_prefix⟩
    · exact Or.inl heq
    · rw [hpat, List.dropLast_concat] at hprefix
      exact Or.inr ⟨start, hpat, hprefix⟩
  · rintro (heq | ⟨start, hpat, hprefix⟩)
    · exact Or.inl (Or.inr heq)
    · refine Or.inr ⟨⟨start, hpat⟩, ?_⟩
      rwa [hpat, List.dropLast_concat]

/-- A pattern that takes the value literally fits it: its stars stand for
themselves. -/
theorem TakenLiterally.globFits {pat value : String} (h : TakenLiterally pat value) :
    GlobFits pat value := by
  rcases h with rfl | ⟨start, hpat, hprefix⟩
  · exact fits_self _
  · rw [GlobFits, hpat]
    exact fits_snoc_of_prefix hprefix

/-- Without a star before its end, a pattern fits only what it takes
literally. -/
theorem GlobFits.takenLiterally {pat value : String} (hinner : hasInnerStar pat = false)
    (h : GlobFits pat value) : TakenLiterally pat value := by
  rw [hasInnerStar, decide_eq_false_iff_not] at hinner
  rw [GlobFits] at h
  rcases List.eq_nil_or_concat pat.toList with hpat | ⟨start, last, hpat⟩
  · rw [hpat, fits_nil_iff, ← hpat, String.toList_inj] at h
    exact Or.inl h.symm
  · rw [List.concat_eq_append] at hpat
    rw [hpat, List.dropLast_concat] at hinner
    rw [hpat] at h
    by_cases hlast : last = '*'
    · subst hlast
      exact Or.inr ⟨start, hpat, (fits_snoc_iff hinner).mp h⟩
    · have hplain : '*' ∉ start ++ [last] := by
        simpa [hinner] using fun heq => hlast (Eq.symm heq)
      rw [fits_iff_eq hplain, ← hpat, String.toList_inj] at h
      exact Or.inl h

/-- A value that such a pattern takes literally has a star of its own. -/
theorem TakenLiterally.star_mem {pat value : String} (hinner : hasInnerStar pat = true)
    (h : TakenLiterally pat value) : '*' ∈ value.toList := by
  rw [hasInnerStar, decide_eq_true_eq] at hinner
  rcases h with rfl | ⟨start, hpat, hprefix⟩
  · exact List.mem_of_mem_dropLast hinner
  · rw [hpat, List.dropLast_concat] at hinner
    exact hprefix.subset hinner

/-- Each pattern with a star before its end that fits the value is made up
for: a pattern without such a star fits the value too, or the value has stars
just where a pattern has them. -/
def MadeUpFor (patterns : List String) (value : String) : Prop :=
  ∀ pat ∈ patterns, hasInnerStar pat = true → GlobFits pat value →
    ∃ other ∈ patterns, hasInnerStar other = false ∧ GlobFits other value ∨
      hasInnerStar other = true ∧ TakenLiterally other value

/-- **When `_glob_any` matches globs.**  A value is taken if and only if some
pattern fits it, each star standing for any string, exactly if the patterns
with a star before their end are made up for. -/
theorem globAny_iff_exists_globFits (patterns : List String) (value : String) :
    (globAny patterns value = true ↔ ∃ pat ∈ patterns, GlobFits pat value) ↔
      MadeUpFor patterns value := by
  rw [globAny_iff_takenLiterally]
  constructor
  · intro hagree pat hpat _ hfits
    obtain ⟨other, hother, htaken⟩ := hagree.mpr ⟨pat, hpat, hfits⟩
    cases hinner : hasInnerStar other with
    | false => exact ⟨other, hother, Or.inl ⟨hinner, htaken.globFits⟩⟩
    | true => exact ⟨other, hother, Or.inr ⟨hinner, htaken⟩⟩
  · intro hmade
    constructor
    · rintro ⟨pat, hpat, htaken⟩
      exact ⟨pat, hpat, htaken.globFits⟩
    · rintro ⟨pat, hpat, hfits⟩
      cases hinner : hasInnerStar pat with
      | false => exact ⟨pat, hpat, hfits.takenLiterally hinner⟩
      | true =>
          obtain ⟨other, hother, ⟨hplain, hfits'⟩ | ⟨-, htaken⟩⟩ := hmade pat hpat hinner hfits
          · exact ⟨other, hother, hfits'.takenLiterally hplain⟩
          · exact ⟨other, hother, htaken⟩

/-! ## The pattern for the documents of all tenants -/

theorem globFits_tenantDocs (tenant doc : String) :
    GlobFits "tenant:*/docs/*" ("tenant:" ++ tenant ++ "/docs/" ++ doc) := by
  have hpat : "tenant:*/docs/*".toList =
      "tenant:".toList ++ ['*'] ++ "/docs/".toList ++ ['*'] := by decide
  rw [GlobFits, hpat]
  simp only [String.toList_append]
  exact (((fits_self _).append (fits_star _)).append (fits_self _)).append (fits_star _)

/-- **It takes no document of any tenant**, unless the name of one has a star
in it. -/
theorem not_globAny_tenantDocs {tenant doc : String}
    (hplain : '*' ∉ ("tenant:" ++ tenant ++ "/docs/" ++ doc).toList) :
    globAny ["tenant:*/docs/*"] ("tenant:" ++ tenant ++ "/docs/" ++ doc) = false := by
  rw [Bool.eq_false_iff, Ne, globAny_iff_takenLiterally]
  rintro ⟨pat, hpat, htaken⟩
  obtain rfl := List.mem_singleton.mp hpat
  exact hplain (htaken.star_mem (by decide))

/-- The policy does not take them: it is looking for the star in the
middle. -/
theorem acme_docs_not_taken :
    ¬ (globAny ["tenant:*/docs/*"] "tenant:acme/docs/a" = true ↔
      ∃ pat ∈ ["tenant:*/docs/*"], GlobFits pat "tenant:acme/docs/a") := by
  intro hagree
  have htaken := hagree.mpr ⟨_, List.mem_singleton_self _, globFits_tenantDocs "acme" "a"⟩
  exact absurd htaken (by decide)

end Auth
