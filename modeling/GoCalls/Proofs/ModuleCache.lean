import GoCalls.Module.Roots
import GoCalls.Proofs.ByteTexts
import GoCalls.Proofs.Readers
import Mathlib.Data.List.Nodup
import Mathlib.Data.String.Basic

/-!
# Modules in the cache

An import path may lie in several required modules, one inside the other. The cache is asked for the
innermost one, which has the longest path. The requirements are sorted once, by descending length of
the paths, and the first one that fits is taken.

* `Requirement.Holds`: an import path lies in a required module.
* `Requirement.IsChosen`: the required module in which an import path is looked for.
* `filter_sorted`: sorting keeps the order of requirements for one module.
* `Requirement.isChosen_unique`: there is at most one such module.
* **`locate_in_longest_module`**: the directory of an import path in the cache.
-/

namespace GoCalls

open scoped List

namespace Requirement

/-! ## Import paths in a module -/

/-- An import path is the path of a required module, or goes on from it after a slash. -/
def Holds (r : Requirement) (path : String) : Prop :=
  path = r.path ∨ ∃ rest, path = r.path ++ "/" ++ rest

theorem rest?_eq_some {r : Requirement} {path : String} {rest : List Char} :
    r.rest? path = some rest ↔
      path.toList = r.path.toList ++ rest ∧ (rest = [] ∨ rest.head? = some '/') := by
  constructor
  · intro h
    unfold rest? at h
    split at h
    · next hafter =>
      obtain rfl := Option.some.inj h
      exact ⟨Text.after?_eq_some.mp hafter, .inl rfl⟩
    · next hafter =>
      obtain rfl := Option.some.inj h
      exact ⟨Text.after?_eq_some.mp hafter, .inr rfl⟩
    · cases h
  · rintro ⟨hpath, rfl | hslash⟩
    · rw [rest?, Text.after?_eq_some.mpr hpath]
    · obtain ⟨more, rfl⟩ := List.head?_eq_some_iff.mp hslash
      rw [rest?, Text.after?_eq_some.mpr hpath]
      rfl

theorem holds_iff {r : Requirement} {path : String} :
    r.Holds path ↔ ∃ rest, r.rest? path = some rest := by
  constructor
  · rintro (h | ⟨rest, h⟩)
    · exact ⟨[], rest?_eq_some.mpr ⟨by rw [h, List.append_nil], .inl rfl⟩⟩
    · refine ⟨'/' :: rest.toList, rest?_eq_some.mpr ⟨?_, .inr rfl⟩⟩
      rw [h, String.append_assoc, String.toList_append, String.toList_append]
      rfl
  · rintro ⟨rest, h⟩
    obtain ⟨hpath, rfl | hslash⟩ := rest?_eq_some.mp h
    · exact .inl (String.toList_inj.mp (by rw [hpath, List.append_nil]))
    · obtain ⟨more, rfl⟩ := List.head?_eq_some_iff.mp hslash
      refine .inr ⟨String.ofList more, String.toList_inj.mp ?_⟩
      rw [hpath, String.append_assoc, String.toList_append, String.toList_append,
        String.toList_ofList]
      simp

theorem rest?_eq_none {r : Requirement} {path : String} :
    r.rest? path = none ↔ ¬ r.Holds path := by
  rw [holds_iff, Option.eq_none_iff_forall_ne_some, not_exists]

theorem Holds.exists_rest {r : Requirement} {path : String} (h : r.Holds path) :
    ∃ rest, path = r.path ++ rest := by
  rcases h with h | ⟨rest, h⟩
  · exact ⟨"", by rw [h, String.append_empty]⟩
  · exact ⟨"/" ++ rest, by rw [h, String.append_assoc]⟩

/-- Modules of one length that hold one path are one. -/
theorem Holds.path_eq {r s : Requirement} {path : String} (hr : r.Holds path) (hs : s.Holds path)
    (hsize : r.path.utf8ByteSize = s.path.utf8ByteSize) : r.path = s.path := by
  obtain ⟨u, hu⟩ := hr.exists_rest
  obtain ⟨v, hv⟩ := hs.exists_rest
  have happend : r.path.toList ++ u.toList = s.path.toList ++ v.toList := by
    rw [← String.toList_append, ← String.toList_append, ← hu, hv]
  -- One path goes on from the other, by nothing, as it is not longer.
  have hsame : ∀ {a b : String} {more : List Char}, a.toList = b.toList ++ more →
      a.utf8ByteSize = b.utf8ByteSize → a = b := by
    intro a b more hmore hsize
    have ha : a = b ++ String.ofList more := by
      apply String.toList_inj.mp
      rw [hmore, String.toList_append, String.toList_ofList]
    rw [ha, String.utf8ByteSize_append] at hsize
    have hempty : String.ofList more = "" := String.utf8ByteSize_eq_zero_iff.mp (by omega)
    rw [ha, hempty, String.append_empty]
  rcases List.append_eq_append_iff.mp happend with ⟨more, hmore, -⟩ | ⟨more, hmore, -⟩
  · exact (hsame hmore hsize.symm).symm
  · exact hsame hmore hsize

/-! ## Sorted requirements -/

theorem le_iff {a b : Requirement} :
    a.le b = true ↔ b.path.utf8ByteSize < a.path.utf8ByteSize ∨
      a.path.utf8ByteSize = b.path.utf8ByteSize ∧ a.path ≤ b.path := by
  simp [le]

theorem le_trans (a b c : Requirement) (hab : a.le b = true) (hbc : b.le c = true) :
    a.le c = true := by
  rw [le_iff] at *
  rcases hab with hab | ⟨hab, hle⟩ <;> rcases hbc with hbc | ⟨hbc, hle'⟩
  · exact .inl (by omega)
  · exact .inl (by omega)
  · exact .inl (by omega)
  · exact .inr ⟨by omega, String.le_trans hle hle'⟩

theorem le_total (a b : Requirement) : (a.le b || b.le a) = true := by
  rw [Bool.or_eq_true, le_iff, le_iff]
  rcases Nat.lt_trichotomy a.path.utf8ByteSize b.path.utf8ByteSize with h | h | h
  · exact .inr (.inl h)
  · rcases String.le_total a.path b.path with hle | hle
    · exact .inl (.inr ⟨h, hle⟩)
    · exact .inr (.inr ⟨h.symm, hle⟩)
  · exact .inl (.inl h)

/-- **Sorting is stable** for one module. -/
theorem filter_sorted (requirements : List Requirement) (module : String) :
    (requirements.mergeSort le).filter (·.path = module) =
      requirements.filter (·.path = module) := by
  have hsorted : (requirements.filter (·.path = module)).Pairwise fun a b => a.le b = true := by
    refine List.pairwise_of_forall_mem_list fun a ha b hb => le_iff.mpr (.inr ?_)
    have hpath : a.path = b.path := by
      have ha' := List.of_mem_filter ha
      have hb' := List.of_mem_filter hb
      rw [of_decide_eq_true ha', of_decide_eq_true hb']
    exact ⟨by rw [hpath], by rw [hpath]⟩
  have hsub : requirements.filter (·.path = module) <+ requirements.mergeSort le :=
    List.sublist_mergeSort le_trans le_total hsorted List.filter_sublist
  have hfilter := hsub.filter fun r => decide (r.path = module)
  simp only [List.filter_filter, Bool.and_self] at hfilter
  have hlength := ((List.mergeSort_perm requirements le).filter fun r => r.path = module).length_eq
  exact (hfilter.eq_of_length hlength.symm).symm

/-! ## The module of an import path -/

/-- Of the required modules that hold an import path, the first with the most bytes. -/
structure IsChosen (requirements : List Requirement) (path : String) (r : Requirement) : Prop where
  holds : r.Holds path
  longest : ∀ s ∈ requirements, s.Holds path → s.path.utf8ByteSize ≤ r.path.utf8ByteSize
  first : requirements.find? (·.path = r.path) = some r

theorem IsChosen.mem {requirements : List Requirement} {path : String} {r : Requirement}
    (h : IsChosen requirements path r) : r ∈ requirements :=
  List.mem_of_find?_eq_some h.first

theorem isChosen_unique {requirements : List Requirement} {path : String} {r s : Requirement}
    (hr : IsChosen requirements path r) (hs : IsChosen requirements path s) : r = s := by
  have hsize : r.path.utf8ByteSize = s.path.utf8ByteSize :=
    Nat.le_antisymm (hs.longest r hr.mem hr.holds) (hr.longest s hs.mem hs.holds)
  have hpath : r.path = s.path := hr.holds.path_eq hs.holds hsize
  have hfirst := hr.first
  rw [hpath, hs.first] at hfirst
  exact (Option.some.inj hfirst).symm

theorem isChosen_of_first {requirements before rest : List Requirement} {path : String}
    {r : Requirement} (hsplit : requirements.mergeSort le = before ++ r :: rest)
    (hr : r.Holds path) (hbefore : ∀ s ∈ before, ¬ s.Holds path) :
    IsChosen requirements path r := by
  have hsorted := List.pairwise_mergeSort le_trans le_total requirements
  rw [hsplit] at hsorted
  refine ⟨hr, fun s hs hholds => ?_, ?_⟩
  · have hmem : s ∈ before ++ r :: rest := hsplit ▸ List.mem_mergeSort.mpr hs
    rcases List.mem_append.mp hmem with hmem | hmem
    · exact absurd hholds (hbefore s hmem)
    · rcases List.mem_cons.mp hmem with rfl | hmem
      · exact Nat.le_refl _
      · have hle := (List.pairwise_cons.mp (List.pairwise_append.mp hsorted).2.1).1 s hmem
        rcases le_iff.mp hle with hlt | ⟨heq, -⟩
        · exact Nat.le_of_lt hlt
        · exact Nat.le_of_eq heq.symm
  · rw [← List.head?_filter, ← filter_sorted, List.head?_filter, hsplit,
      List.find?_append, List.find?_eq_none.mpr, Option.none_or, List.find?_cons_of_pos]
    · exact decide_eq_true rfl
    · -- A requirement for the same module would hold the import path too.
      intro s hs hsame
      refine hbefore s hs ?_
      rwa [Holds, of_decide_eq_true hsame]

theorem exists_isChosen {requirements : List Requirement} {path : String} {s : Requirement}
    (hs : s ∈ requirements) (hholds : s.Holds path) :
    ∃ (r : Requirement) (rest : String), IsChosen requirements path r ∧ path = r.path ++ rest ∧
      (requirements.mergeSort le).findSome? (fun r => (r.rest? path).map (r, ·)) =
        some (r, rest.toList) := by
  obtain ⟨more, hmore⟩ := holds_iff.mp hholds
  cases hfound : (requirements.mergeSort le).findSome? fun r => (r.rest? path).map (r, ·) with
  | none =>
    have hnone := List.findSome?_eq_none_iff.mp hfound s (List.mem_mergeSort.mpr hs)
    rw [hmore] at hnone
    cases hnone
  | some found =>
    obtain ⟨before, r, rest, hsplit, hr, hbefore⟩ := List.findSome?_eq_some_iff.mp hfound
    obtain ⟨remains, hremains, rfl⟩ := Option.map_eq_some_iff.mp hr
    refine ⟨r, String.ofList remains, isChosen_of_first hsplit (holds_iff.mpr ⟨_, hremains⟩) ?_,
      ?_, by rw [String.toList_ofList]⟩
    · intro s hs
      exact rest?_eq_none.mp (Option.map_eq_none_iff.mp (hbefore s hs))
    · apply String.toList_inj.mp
      rw [(rest?_eq_some.mp hremains).1, String.toList_append, String.toList_ofList]

/-- The order of requirements for different modules does not matter. -/
theorem IsChosen.perm {requirements others : List Requirement} {path : String} {r : Requirement}
    (h : IsChosen requirements path r) (hperm : requirements ~ others)
    (hnodup : (requirements.map (·.path)).Nodup) : IsChosen others path r := by
  refine ⟨h.holds, fun s hs => h.longest s (hperm.mem_iff.mpr hs), ?_⟩
  have hmem : r ∈ others := hperm.mem_iff.mp h.mem
  have hnodup' : (others.map (·.path)).Nodup := (hperm.map _).nodup_iff.mp hnodup
  cases hfound : others.find? (·.path = r.path) with
  | none => exact absurd (decide_eq_true rfl) (List.find?_eq_none.mp hfound r hmem)
  | some s =>
    have hs : s.path = r.path := by simpa using List.find?_some hfound
    rw [List.inj_on_of_nodup_map hnodup' (List.mem_of_find?_eq_some hfound) hmem hs]

/-- Below the cache, the directory of a required module and what remains of an import path in it. -/
def cacheName (r : Requirement) (rest : String) : String :=
  String.ofList (escapePath r.path.toList ++ ['@'] ++ escapePath r.version.toList ++
    escapePath rest.toList)

end Requirement

/-! ## Import paths outside the standard library -/

theorem head_of_not_isStandard {path : String} (h : isStandard path = false) :
    path ≠ "" ∧ path.toList.head? ≠ some '/' := by
  constructor
  · rintro rfl
    cases h
  · intro hslash
    obtain ⟨rest, hrest⟩ := List.head?_eq_some_iff.mp hslash
    rw [isStandard, hrest] at h
    cases h

theorem not_isAbsolute_cacheName {r : Requirement} {path : String} (rest : String)
    (hpath : isStandard path = false) (h : r.Holds path) :
    Path.isAbsolute (r.cacheName rest) = false := by
  obtain ⟨hne, hslash⟩ := head_of_not_isStandard hpath
  cases hr : r.path.toList with
  | nil =>
    have hempty : r.path = "" := String.toList_eq_nil_iff.mp hr
    rcases h with h | ⟨more, h⟩
    · exact absurd (h.trans hempty) hne
    · rw [h, hempty] at hslash
      simp at hslash
  | cons c cs =>
    obtain ⟨more, hmore⟩ := h.exists_rest
    have hc : c ≠ '/' := by
      rintro rfl
      rw [hmore, String.toList_append, hr] at hslash
      exact hslash rfl
    have hhead : (r.cacheName rest).toList.head? ≠ some '/' := by
      rw [Requirement.cacheName, String.toList_ofList, hr, escapePath, List.flatMap_cons]
      by_cases hupper : c.isUpper
      · simp [hupper]
      · simp [hupper, hc]
    exact decide_eq_false fun hslash => hhead (Text.slash_of_head_bytes hslash)

namespace Roots

theorem candidates_of_not_isStandard (roots : Roots) {path : String}
    (h : isStandard path = false) :
    roots.candidates path =
      (roots.vendor.map fun root => Path.join root path).toList ++ (roots.cached? path).toList := by
  have hne : path ≠ "C" := by
    rintro rfl
    cases h
  rw [candidates, if_neg hne, h]
  rfl

theorem locate_of_not_vendored (roots : Roots) (disk : Disk) {path : String}
    (hpath : isStandard path = false)
    (hvendor : ∀ dir, roots.vendor = some dir → disk.isDir (Path.join dir path) = false) :
    roots.locate disk path = (roots.cached? path).filter disk.isDir := by
  rw [locate, candidates_of_not_isStandard roots hpath, List.find?_append, List.find?_eq_none.mpr,
    Option.none_or]
  · cases roots.cached? path with
    | none => rfl
    | some dir => by_cases hdir : disk.isDir dir <;> simp [Option.filter, hdir]
  · intro dir hdir
    obtain ⟨root, hroot, rfl⟩ := Option.map_eq_some_iff.mp (Option.mem_toList.mp hdir)
    rw [hvendor root hroot]
    exact Bool.false_ne_true

section Cached

variable (goroot vendor : Option OsString) (cache : OsString) {requirements : List Requirement}
  {path : String}

theorem cached?_of_not_holds (h : ∀ r ∈ requirements, ¬ r.Holds path) :
    (ofParts goroot vendor (some cache) requirements).cached? path = none := by
  have hnone : (requirements.mergeSort Requirement.le).findSome?
      (fun r => (r.rest? path).map (r, ·)) = none := by
    refine List.findSome?_eq_none_iff.mpr fun r hr => ?_
    rw [Requirement.rest?_eq_none.mpr (h r (List.mem_mergeSort.mp hr)), Option.map_none]
  simp [cached?, ofParts, hnone]

theorem cached?_of_isChosen {r : Requirement} (h : Requirement.IsChosen requirements path r)
    {rest : String} (hrest : path = r.path ++ rest) :
    (ofParts goroot vendor (some cache) requirements).cached? path =
      some (Path.join cache (r.cacheName rest)) := by
  obtain ⟨s, rest', hs, hrest', hfound⟩ := Requirement.exists_isChosen h.mem h.holds
  obtain rfl := Requirement.isChosen_unique h hs
  obtain rfl : rest = rest' := (String.append_right_inj _).mp (hrest.symm.trans hrest')
  simp [cached?, ofParts, hfound, Requirement.cacheName]

end Cached

end Roots

/-- **An import path is looked for in the longest required module** that holds it, and in no other
directory. -/
theorem locate_in_longest_module (disk : Disk) (goroot vendor : Option OsString)
    (cache : OsString) (requirements : List Requirement) {path : String}
    (hpath : isStandard path = false)
    (hvendor : ∀ dir, vendor = some dir → disk.isDir (Path.join dir path) = false) :
    let roots := Roots.ofParts goroot vendor (some cache) requirements
    ((∀ r ∈ requirements, ¬ r.Holds path) → roots.locate disk path = none) ∧
      ((∃ r ∈ requirements, r.Holds path) → ∃ r, Requirement.IsChosen requirements path r ∧
        (∀ s, Requirement.IsChosen requirements path s → s = r) ∧
        ∃ rest, path = r.path ++ rest ∧ Path.isAbsolute (r.cacheName rest) = false ∧
          let dir := Path.join cache (r.cacheName rest)
          roots.candidates path =
              (vendor.map fun root => Path.join root path).toList ++ [dir] ∧
            roots.locate disk path = if disk.isDir dir then some dir else none) ∧
      ∀ others, requirements ~ others → (requirements.map (·.path)).Nodup →
        (Roots.ofParts goroot vendor (some cache) others).locate disk path =
          roots.locate disk path := by
  intro roots
  have hlocate : ∀ rs, (Roots.ofParts goroot vendor (some cache) rs).locate disk path =
      ((Roots.ofParts goroot vendor (some cache) rs).cached? path).filter disk.isDir :=
    fun rs => Roots.locate_of_not_vendored _ disk hpath hvendor
  refine ⟨fun hnone => ?_, ?_, fun others hperm hnodup => ?_⟩
  · rw [hlocate, Roots.cached?_of_not_holds goroot vendor cache hnone, Option.filter_none]
  · rintro ⟨s, hs, hholds⟩
    obtain ⟨r, rest, hr, hrest, -⟩ := Requirement.exists_isChosen hs hholds
    have hcached := Roots.cached?_of_isChosen goroot vendor cache hr hrest
    refine ⟨r, hr, fun s hs => Requirement.isChosen_unique hs hr, rest, hrest,
      not_isAbsolute_cacheName rest hpath hr.holds, ?_, ?_⟩
    · rw [Roots.candidates_of_not_isStandard roots hpath, hcached]
      rfl
    · rw [hlocate, hcached, Option.filter_some]
  · rw [hlocate, hlocate]
    by_cases h : ∃ r ∈ requirements, r.Holds path
    · obtain ⟨s, hs, hholds⟩ := h
      obtain ⟨r, rest, hr, hrest, -⟩ := Requirement.exists_isChosen hs hholds
      rw [Roots.cached?_of_isChosen goroot vendor cache hr hrest,
        Roots.cached?_of_isChosen goroot vendor cache (hr.perm hperm hnodup) hrest]
    · have hnone : ∀ r ∈ requirements, ¬ r.Holds path := fun r hr hholds => h ⟨r, hr, hholds⟩
      rw [Roots.cached?_of_not_holds goroot vendor cache hnone,
        Roots.cached?_of_not_holds goroot vendor cache fun r hr => hnone r (hperm.mem_iff.mpr hr)]

/-- Modules inside each other, one of them with two versions. -/
def nestedModules : List Requirement :=
  [⟨"a.b/Big", "v1"⟩, ⟨"a.b/Big/i", "v9"⟩, ⟨"a.b/Big/in", "v2"⟩, ⟨"a.b/Big/in", "v3"⟩]

theorem nestedModules_isChosen :
    Requirement.IsChosen nestedModules "a.b/Big/in/x" ⟨"a.b/Big/in", "v2"⟩ where
  holds := .inr ⟨"x", by decide⟩
  longest := fun s hs _ => by
    have hsizes : ∀ s ∈ nestedModules, s.path.utf8ByteSize ≤ 10 := by decide
    exact hsizes s hs
  first := by decide

/-- A package in the inner module, in its first version. -/
theorem locate_in_longest_module_nested :
    let disk := ({} : Disk).addDir [] ["mod", "a.b", "!big", "in@v2", "x"]
    isStandard "a.b/Big/in/x" = false ∧ disk.isDir (Path.join "/v" "a.b/Big/in/x") = false ∧
      (Roots.ofParts none (some "/v") (some "/mod") nestedModules).locate disk "a.b/Big/in/x" =
        some "/mod/a.b/!big/in@v2/x" := by
  intro disk
  have hpath : isStandard "a.b/Big/in/x" = false := by decide
  have hvendor : disk.isDir (Path.join "/v" "a.b/Big/in/x") = false := by decide +kernel
  obtain ⟨-, hchosen, -⟩ :=
    locate_in_longest_module disk none (some "/v") "/mod" nestedModules hpath
      fun dir hdir => Option.some.inj hdir ▸ hvendor
  obtain ⟨r, -, hunique, rest, hrest, -, -, hlocate⟩ :=
    hchosen ⟨_, nestedModules_isChosen.mem, nestedModules_isChosen.holds⟩
  obtain rfl := hunique _ nestedModules_isChosen
  obtain rfl : "/x" = rest := (String.append_right_inj "a.b/Big/in").mp hrest
  refine ⟨hpath, hvendor, hlocate.trans ?_⟩
  decide +kernel

end GoCalls
