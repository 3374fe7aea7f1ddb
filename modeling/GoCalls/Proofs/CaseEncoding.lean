import GoCalls.Proofs.FileTrees
import GoCalls.Proofs.ModuleCache

/-!
# Case encoding

The cache writes a mark and a small letter for a capital letter, as file systems may not tell the
two apart. Nothing is lost: a decoder finds the capital letters again where paths have no such mark.
So import paths of one module are looked for in one directory of the cache only where they are the
same as paths, up to empty pieces and pieces that are a dot.

* `unescapePath`: the decoder, with **`unescapePath_escapePath`**.
* `splitOn_escapePath`: paths are encoded piece by piece.
* `Path.components_append`, `Requirement.components_join_iff`: paths that go on from another.
* **`escapePath_loses_nothing`**: the laws of the encoding, and what they mean for the cache.
-/

namespace GoCalls

variable {s t : List Char} {c : Char}

/-! ## Encoding and decoding -/

/-- The path that the cache writes as a given text. -/
def unescapePath : List Char → List Char
  | [] => []
  | '!' :: c :: s => c.toUpper :: unescapePath s
  | c :: s => c :: unescapePath s

theorem escapePath_append (s t : List Char) : escapePath (s ++ t) = escapePath s ++ escapePath t :=
  List.flatMap_append

theorem escapePath_cons_of_isUpper (hc : c.isUpper) (s : List Char) :
    escapePath (c :: s) = '!' :: c.toLower :: escapePath s := by
  rw [escapePath, List.flatMap_cons, if_pos hc]
  rfl

theorem escapePath_cons_of_not_isUpper (hc : ¬ c.isUpper) (s : List Char) :
    escapePath (c :: s) = c :: escapePath s := by
  rw [escapePath, List.flatMap_cons, if_neg hc]
  rfl

theorem toLower_of_isUpper (hc : c.isUpper) :
    c.toLower.toUpper = c ∧ c.toLower.isLower ∧ c.toLower.isUpper = false := by
  have hletters : ∀ n ∈ List.range' 65 26, (Char.ofNat n).toLower.toUpper = Char.ofNat n ∧
      (Char.ofNat n).toLower.isLower ∧ (Char.ofNat n).toLower.isUpper = false := by decide
  have hcode : c.toNat ∈ List.range' 65 26 := by
    obtain ⟨hfrom, hto⟩ : 65 ≤ c.val ∧ c.val ≤ 90 := of_decide_eq_true hc
    exact List.mem_range'_1.mpr ⟨UInt32.le_iff_toNat_le.mp hfrom,
      Nat.lt_succ_of_le (UInt32.le_iff_toNat_le.mp hto)⟩
  rw [← Char.ofNat_toNat c]
  exact hletters _ hcode

theorem unescapePath_cons (hc : c ≠ '!') (s : List Char) :
    unescapePath (c :: s) = c :: unescapePath s := by
  rw [unescapePath]
  exact fun _ _ he => absurd he hc

/-- **The decoder undoes the encoding** of texts without a mark. -/
theorem unescapePath_escapePath (h : '!' ∉ s) : unescapePath (escapePath s) = s := by
  induction s with
  | nil => rfl
  | cons c s ih =>
    obtain ⟨hc, hs⟩ := not_or.mp (mt List.mem_cons.mpr h)
    by_cases hupper : c.isUpper
    · rw [escapePath_cons_of_isUpper hupper, unescapePath, (toLower_of_isUpper hupper).1, ih hs]
    · rw [escapePath_cons_of_not_isUpper hupper, unescapePath_cons (Ne.symm hc), ih hs]

theorem escapePath_inj (hs : '!' ∉ s) (ht : '!' ∉ t) (h : escapePath s = escapePath t) : s = t := by
  rw [← unescapePath_escapePath hs, h, unescapePath_escapePath ht]

theorem mem_escapePath (h : c ∈ escapePath s) :
    c = '!' ∨ (∃ d : Char, d.isUpper ∧ c = d.toLower) ∨ c ∈ s ∧ ¬ c.isUpper := by
  obtain ⟨d, hd, hc⟩ := List.mem_flatMap.mp h
  by_cases hupper : d.isUpper
  · rw [if_pos hupper] at hc
    rcases List.mem_cons.mp hc with rfl | hc
    · exact .inl rfl
    · exact .inr (.inl ⟨d, hupper, List.mem_singleton.mp hc⟩)
  · rw [if_neg hupper] at hc
    obtain rfl := List.mem_singleton.mp hc
    exact .inr (.inr ⟨hd, hupper⟩)

theorem isUpper_of_mem_escapePath (h : c ∈ escapePath s) : c.isUpper = false := by
  rcases mem_escapePath h with rfl | ⟨d, hd, rfl⟩ | ⟨-, hc⟩
  · rfl
  · exact (toLower_of_isUpper hd).2.2
  · simpa using hc

/-- Only marks and small letters are added. -/
theorem mem_of_mem_escapePath (hmark : c ≠ '!') (hlower : c.isLower = false)
    (h : c ∈ escapePath s) : c ∈ s := by
  rcases mem_escapePath h with hc | ⟨d, hd, rfl⟩ | ⟨hs, -⟩
  · exact absurd hc hmark
  · rw [(toLower_of_isUpper hd).2.1] at hlower
    cases hlower
  · exact hs

/-! ## Encoding piece by piece -/

section Split

variable {α β : Type} [BEq α] [LawfulBEq α] [BEq β] [LawfulBEq β] {f : List α → List β} {x : α}
  {y : β}

/-- What is encoded part by part is cut where it was. -/
theorem splitOn_of_append (hnil : f [] = []) (happend : ∀ s t, f (s ++ t) = f s ++ f t)
    (hmark : f [x] = [y]) (hfree : ∀ part, x ∉ part → y ∉ f part) (s : List α) :
    (f s).splitOn y = (s.splitOn x).map f := by
  have hjoin : ∀ parts : List (List α),
      f (List.intercalate [x] parts) = List.intercalate [y] (parts.map f) := by
    intro parts
    induction parts with
    | nil => exact hnil
    | cons part parts ih =>
      cases parts with
      | nil => simp
      | cons next parts =>
        rw [List.intercalate_cons_cons, happend, happend, hmark, ih]
        simp only [List.map_cons, List.intercalate_cons_cons]
  have hparts : ∀ part ∈ (s.splitOn x).map f, y ∉ part :=
    List.forall_mem_map.mpr fun part hpart => hfree part (notMem_of_mem_splitOn hpart)
  have hs : List.intercalate [x] (s.splitOn x) = s := List.intercalate_splitOn x
  conv_lhs => rw [← hs, hjoin]
  exact List.splitOn_intercalate y hparts (by simp)

theorem mem_of_mem_splitOn {a : α} {s part : List α} (h : part ∈ s.splitOn x) (ha : a ∈ part) :
    a ∈ s := by
  have hmem : ∀ parts : List (List α), part ∈ parts → a ∈ List.intercalate [x] parts := by
    intro parts hpart
    induction parts with
    | nil => cases hpart
    | cons first parts ih =>
      cases parts with
      | nil => simpa using List.mem_singleton.mp hpart ▸ ha
      | cons next parts =>
        rw [List.intercalate_cons_cons]
        rcases List.mem_cons.mp hpart with rfl | hpart
        · exact List.mem_append_left _ (List.mem_append_left _ ha)
        · exact List.mem_append_right _ (ih hpart)
  have hs : List.intercalate [x] (s.splitOn x) = s := List.intercalate_splitOn x
  exact hs ▸ hmem _ h

end Split

/-- **Paths are encoded piece by piece.** -/
theorem splitOn_escapePath (s : List Char) :
    (escapePath s).splitOn '/' = (s.splitOn '/').map escapePath :=
  splitOn_of_append rfl escapePath_append rfl
    (fun _ => mt (mem_of_mem_escapePath (by decide) (by decide))) s

/-- The bytes of characters. -/
def charBytes (cs : List Char) : OsString := Text.bytes (String.ofList cs)

theorem charBytes_injective : Function.Injective charBytes :=
  fun _ _ h => String.ofList_injective (Text.bytes_injective h)

theorem charBytes_append (s t : List Char) : charBytes (s ++ t) = charBytes s ++ charBytes t := by
  rw [charBytes, String.ofList_append, Text.bytes_append]
  rfl

theorem charBytes_toList (s : String) : charBytes s.toList = Text.bytes s := by
  rw [charBytes, String.ofList_toList]

theorem Path.pieces_charBytes (s : List Char) :
    Path.pieces (charBytes s) = (s.splitOn '/').map charBytes := by
  rw [Path.pieces_eq]
  refine splitOn_of_append (by decide) charBytes_append (by decide) (fun part hpart hmem => ?_) s
  exact hpart (by simpa using Text.slash_of_mem_bytes hmem)

/-! ## Paths that go on from others -/

namespace Path

/-- The pieces that name something. -/
def proper (names : List OsString) : List OsString := names.filter fun name => !isEmptyPiece name

/-- **The components of a path that goes on from another.** -/
theorem components_append {base rest : OsString} {names : List OsString} (hbase : base ≠ [])
    (h : pieces (base ++ rest) = pieces base ++ names) :
    components (base ++ rest) = components base ++ proper names := by
  obtain ⟨first, more, hp⟩ := exists_pieces base
  have hne : base ++ rest ≠ [] := by simp [hbase]
  rw [hp, List.cons_append] at h
  rw [components_eq hne h, components_eq hbase hp, List.filter_append, List.cons_append]
  rfl

end Path

namespace Disk

variable {disk : Disk}

theorem follow_names {place q : Place} {names : List OsString}
    (hup : [Path.dot, Path.dot] ∉ names) (h : disk.follow place names = .ok q) :
    q = place ++ Path.proper names := by
  induction names generalizing place with
  | nil => simpa [follow, Path.proper] using h.symm
  | cons name names ih =>
    obtain ⟨hname, hnames⟩ := not_or.mp (mt List.mem_cons.mpr hup)
    rw [follow] at h
    split at h
    · split_ifs at h with hempty hdots hsome
      · rw [ih hnames h, Path.proper, Path.proper, List.filter_cons_of_neg (by simp [hempty])]
      · exact absurd hdots.symm hname
      · rw [ih hnames h, Path.proper, Path.proper, List.filter_cons_of_pos (by simp [hempty]),
          List.append_assoc, List.singleton_append]
    · cases h
    · cases h

/-- Ways to one place have the same names. -/
theorem proper_of_find {base a b : OsString} {place : Place} {names others : List OsString}
    (hbase : base ≠ []) (hup : [Path.dot, Path.dot] ∉ names) (hup' : [Path.dot, Path.dot] ∉ others)
    (ha : Path.pieces (base ++ a) = Path.pieces base ++ names)
    (hb : Path.pieces (base ++ b) = Path.pieces base ++ others)
    (hfa : disk.find (base ++ a) = .ok place) (hfb : disk.find (base ++ b) = .ok place) :
    Path.proper names = Path.proper others := by
  have hstart : ∀ rest, disk.start (base ++ rest) = disk.start base := fun rest => by
    rw [start, start, Path.isAbsolute_append hbase]
  rw [find_eq (ne_empty_of_find hfa), hstart, ha, follow_append] at hfa
  rw [find_eq (ne_empty_of_find hfb), hstart, hb, follow_append] at hfb
  cases hd : disk.follow (disk.start base) (Path.pieces base) with
  | error reason =>
    rw [hd] at hfa
    cases hfa
  | ok p =>
    rw [hd] at hfa hfb
    exact List.append_cancel_left ((follow_names hup hfa).symm.trans (follow_names hup' hfb))

end Disk

/-! ## Pieces of encoded paths -/

theorem escapePath_eq_self (h : '!' ∉ escapePath s) : escapePath s = s := by
  induction s with
  | nil => rfl
  | cons c s ih =>
    by_cases hupper : c.isUpper
    · rw [escapePath_cons_of_isUpper hupper] at h
      exact absurd List.mem_cons_self h
    · rw [escapePath_cons_of_not_isUpper hupper] at h ⊢
      rw [ih (mt (List.mem_cons_of_mem c) h)]

/-- Small texts are those of themselves only. -/
theorem escapePath_eq_iff (hmark : '!' ∉ t) (ht : escapePath t = t) : escapePath s = t ↔ s = t := by
  refine ⟨fun h => ?_, fun h => by rw [h, ht]⟩
  rw [← h, escapePath_eq_self (h ▸ hmark)]

theorem charBytes_escapePath_eq_iff (hmark : '!' ∉ t) (ht : escapePath t = t) :
    charBytes (escapePath s) = charBytes t ↔ charBytes s = charBytes t := by
  rw [charBytes_injective.eq_iff, charBytes_injective.eq_iff, escapePath_eq_iff hmark ht]

theorem isEmptyPiece_escapePath (s : List Char) :
    Path.isEmptyPiece (charBytes (escapePath s)) = Path.isEmptyPiece (charBytes s) := by
  have hempty : charBytes (escapePath s) = [] ↔ charBytes s = [] :=
    charBytes_escapePath_eq_iff (t := []) (by decide) rfl
  have hdot : charBytes (escapePath s) = [Path.dot] ↔ charBytes s = [Path.dot] :=
    charBytes_escapePath_eq_iff (t := ['.']) (by decide) rfl
  rw [Path.isEmptyPiece, Path.isEmptyPiece, decide_eq_decide.mpr hempty, decide_eq_decide.mpr hdot]

/-- Encoding tells names apart. -/
theorem proper_escapePath_iff {names others : List (List Char)} (h : ∀ name ∈ names, '!' ∉ name)
    (h' : ∀ name ∈ others, '!' ∉ name) :
    Path.proper (names.map fun name => charBytes (escapePath name)) =
        Path.proper (others.map fun name => charBytes (escapePath name)) ↔
      Path.proper (names.map charBytes) = Path.proper (others.map charBytes) := by
  -- Both keep the same names, which can be read back from what is encoded.
  have hkeep : ∀ names : List (List Char),
      Path.proper (names.map fun name => charBytes (escapePath name)) =
        ((names.filter fun name => !Path.isEmptyPiece (charBytes name)).map escapePath).map
          charBytes := by
    intro names
    rw [Path.proper, List.filter_map, List.map_map]
    simp only [Function.comp_def, isEmptyPiece_escapePath]
  have hdecode : ∀ {names : List (List Char)}, (∀ name ∈ names, '!' ∉ name) →
      (names.map escapePath).map unescapePath = names := by
    intro names h
    rw [List.map_map]
    exact (List.map_congr_left fun name hname => unescapePath_escapePath (h name hname)).trans
      (List.map_id names)
  rw [hkeep, hkeep, Path.proper, Path.proper, List.filter_map, List.filter_map,
    (List.map_injective_iff.mpr charBytes_injective).eq_iff,
    (List.map_injective_iff.mpr charBytes_injective).eq_iff]
  refine ⟨fun heq => ?_, fun heq => congrArg _ heq⟩
  have hread := congrArg (List.map unescapePath) heq
  rwa [hdecode fun name hname => h name (List.mem_of_mem_filter hname),
    hdecode fun name hname => h' name (List.mem_of_mem_filter hname)] at hread

/-! ## Directories in the cache -/

/-- A path goes on after a slash, or not at all. -/
def Continues (rest : List Char) : Prop := rest = [] ∨ rest.head? = some '/'

theorem Continues.escapePath (h : Continues s) : Continues (escapePath s) := by
  rcases h with rfl | h
  · exact .inl rfl
  · obtain ⟨more, rfl⟩ := List.head?_eq_some_iff.mp h
    exact .inr (by rw [escapePath_cons_of_not_isUpper (by decide)]; rfl)

theorem Continues.pieces_append (h : Continues s) (base : OsString) :
    Path.pieces (base ++ charBytes s) =
      Path.pieces base ++ (s.splitOn '/').tail.map charBytes := by
  rcases h with rfl | h
  · have hnil : charBytes [] = [] := by decide
    simp [hnil]
  · obtain ⟨more, rfl⟩ := List.head?_eq_some_iff.mp h
    have hslash : charBytes ('/' :: more) = Path.slash :: charBytes more :=
      charBytes_append ['/'] more
    rw [hslash, Path.pieces_slash, Path.pieces_charBytes, ← List.nil_append ('/' :: more),
      List.splitOn_append_cons_self]
    rfl

theorem Continues.pieces_append_escapePath (h : Continues s) (base : OsString) :
    Path.pieces (base ++ charBytes (GoCalls.escapePath s)) = Path.pieces base ++
      (s.splitOn '/').tail.map fun name => charBytes (GoCalls.escapePath name) := by
  rw [h.escapePath.pieces_append, splitOn_escapePath, ← List.map_tail, List.map_map]
  rfl

namespace Path

theorem join_append (dir : OsString) {a : OsString} (ha : a ≠ []) (b : OsString) :
    join dir (a ++ b) = join dir a ++ b := by
  simp only [join, isAbsolute_append ha]
  split_ifs <;> simp

theorem join_ne_empty_of_ne (dir : OsString) {a : OsString} (ha : a ≠ []) : join dir a ≠ [] := by
  unfold join
  split_ifs <;> simp [ha]

end Path

namespace Requirement

variable {r : Requirement}

theorem Holds.exists_continues {path : String} (h : r.Holds path) :
    ∃ rest, path = r.path ++ rest ∧ Continues rest.toList := by
  rcases h with h | ⟨more, h⟩
  · exact ⟨"", by rw [h, String.append_empty], .inl rfl⟩
  · exact ⟨"/" ++ more, by rw [h, String.append_assoc], .inr (by simp)⟩

theorem bytes_cacheName (r : Requirement) (rest : String) :
    Text.bytes (r.cacheName rest) =
      Text.bytes (r.cacheName "") ++ charBytes (escapePath rest.toList) := by
  rw [cacheName, cacheName, ← charBytes, ← charBytes, ← charBytes_append]
  simp [escapePath]

theorem bytes_cacheName_ne_nil (r : Requirement) : Text.bytes (r.cacheName "") ≠ [] := by
  intro h
  have hempty : r.cacheName "" = "" := Text.bytes_injective h
  rw [cacheName, String.ofList_eq_empty_iff] at hempty
  simp at hempty

/-- The directory of a module in the cache. -/
def cacheDir (r : Requirement) (cache : OsString) : OsString := Path.join cache (r.cacheName "")

theorem cacheDir_ne_nil (r : Requirement) (cache : OsString) : r.cacheDir cache ≠ [] :=
  Path.join_ne_empty_of_ne cache r.bytes_cacheName_ne_nil

/-- The directory of an import path goes on from its module's. -/
theorem join_cacheName (r : Requirement) (cache : OsString) (rest : String) :
    Path.join cache (r.cacheName rest) =
      r.cacheDir cache ++ charBytes (escapePath rest.toList) := by
  rw [bytes_cacheName, Path.join_append cache r.bytes_cacheName_ne_nil]
  rfl

theorem bytes_append_rest (r : Requirement) (rest : String) :
    Text.bytes (r.path ++ rest) = Text.bytes r.path ++ charBytes rest.toList := by
  rw [Text.bytes_append, charBytes_toList]

theorem bytes_path_ne_nil (hr : r.path ≠ "") : Text.bytes r.path ≠ [] :=
  fun h => hr (Text.bytes_injective h)

/-- The names that lead on from a module to a package. -/
def names (rest : String) : List (List Char) := (rest.toList.splitOn '/').tail

theorem mark_notMem_names {rest : String} (h : '!' ∉ rest.toList) :
    ∀ name ∈ names rest, '!' ∉ name :=
  fun _ hname hmem => h (mem_of_mem_splitOn (List.mem_of_mem_tail hname) hmem)

section

variable {u v : String} (hu : '!' ∉ u.toList) (hv : '!' ∉ v.toList)
include hu hv

theorem rest_of_join {cache : OsString}
    (h : Path.join cache (r.cacheName u) = Path.join cache (r.cacheName v)) : u = v := by
  rw [join_cacheName r cache u, join_cacheName r cache v, List.append_cancel_left_eq] at h
  exact String.toList_inj.mp (escapePath_inj hu hv (charBytes_injective h))

variable (hcu : Continues u.toList) (hcv : Continues v.toList) (hr : r.path ≠ "")
include hcu hcv hr

theorem proper_names_iff :
    Path.proper ((names u).map fun name => charBytes (escapePath name)) =
        Path.proper ((names v).map fun name => charBytes (escapePath name)) ↔
      Path.components (r.path ++ u : String) = Path.components (r.path ++ v : String) := by
  have hbase := bytes_path_ne_nil hr
  rw [proper_escapePath_iff (mark_notMem_names hu) (mark_notMem_names hv), bytes_append_rest,
    bytes_append_rest, Path.components_append hbase (hcu.pieces_append _),
    Path.components_append hbase (hcv.pieces_append _), List.append_cancel_left_eq]
  rfl

/-- **Import paths of one module** have one directory when they are the same as paths. -/
theorem components_join_iff (cache : OsString) :
    Path.components (Path.join cache (r.cacheName u)) =
        Path.components (Path.join cache (r.cacheName v)) ↔
      Path.components (r.path ++ u : String) = Path.components (r.path ++ v : String) := by
  have hdir := r.cacheDir_ne_nil cache
  rw [join_cacheName, join_cacheName,
    Path.components_append hdir (hcu.pieces_append_escapePath _),
    Path.components_append hdir (hcv.pieces_append_escapePath _), List.append_cancel_left_eq]
  exact proper_names_iff hu hv hcu hcv hr

theorem components_of_find {disk : Disk} {cache : OsString} {place : Place}
    (hup : Text.bytes ".." ∉ Path.pieces (r.path ++ u : String))
    (hup' : Text.bytes ".." ∉ Path.pieces (r.path ++ v : String))
    (hfu : disk.find (Path.join cache (r.cacheName u)) = .ok place)
    (hfv : disk.find (Path.join cache (r.cacheName v)) = .ok place) :
    Path.components (r.path ++ u : String) = Path.components (r.path ++ v : String) := by
  have hescaped : ∀ {w : String}, Continues w.toList →
      Text.bytes ".." ∉ Path.pieces (r.path ++ w : String) →
      [Path.dot, Path.dot] ∉ (names w).map fun name => charBytes (escapePath name) := by
    intro w hcw hup hmem
    obtain ⟨name, hname, hdots⟩ := List.mem_map.mp hmem
    rw [bytes_append_rest, hcw.pieces_append] at hup
    refine hup (List.mem_append_right _ (List.mem_map.mpr ⟨name, hname, ?_⟩))
    exact (charBytes_escapePath_eq_iff (t := ['.', '.']) (by decide) rfl).mp hdots
  rw [join_cacheName] at hfu hfv
  exact (proper_names_iff hu hv hcu hcv hr).mp (Disk.proper_of_find (r.cacheDir_ne_nil cache)
    (hescaped hcu hup) (hescaped hcv hup') (hcu.pieces_append_escapePath _)
    (hcv.pieces_append_escapePath _) hfu hfv)

end

end Requirement

/-- **Case encoding loses nothing.** A decoder undoes it, and import paths of one module have one
directory just when they are the same as paths. -/
theorem escapePath_loses_nothing :
    (∀ s, '!' ∉ s → unescapePath (escapePath s) = s) ∧
      (∀ s t, '!' ∉ s → '!' ∉ t → escapePath s = escapePath t → s = t) ∧
      (∀ s, ∀ c ∈ escapePath s, c.isUpper = false) ∧
      (∀ s t, escapePath (s ++ t) = escapePath s ++ escapePath t) ∧
      ∀ (goroot vendor : Option OsString) (cache : OsString) (requirements : List Requirement)
        (r : Requirement) (p q : String), Requirement.IsChosen requirements p r →
        Requirement.IsChosen requirements q r → '!' ∉ p.toList → '!' ∉ q.toList →
        let roots := Roots.ofParts goroot vendor (some cache) requirements
        ∃ dir dir', roots.cached? p = some dir ∧ roots.cached? q = some dir' ∧
          (dir = dir' ↔ p = q) ∧
          (r.path ≠ "" → (Path.components dir = Path.components dir' ↔
            Path.components p = Path.components q)) ∧
          (r.path ≠ "" → Text.bytes ".." ∉ Path.pieces p → Text.bytes ".." ∉ Path.pieces q →
            ∀ (disk : Disk) (place : Place), disk.find dir = .ok place →
              disk.find dir' = .ok place → Path.components p = Path.components q) := by
  refine ⟨fun s => unescapePath_escapePath, fun s t => escapePath_inj,
    fun s c => isUpper_of_mem_escapePath, escapePath_append, ?_⟩
  intro goroot vendor cache requirements r p q hp hq hpm hqm roots
  obtain ⟨u, rfl, hcu⟩ := hp.holds.exists_continues
  obtain ⟨v, rfl, hcv⟩ := hq.holds.exists_continues
  have hu : '!' ∉ u.toList := fun h => hpm (by simp [h])
  have hv : '!' ∉ v.toList := fun h => hqm (by simp [h])
  refine ⟨_, _, Roots.cached?_of_isChosen goroot vendor cache hp rfl,
    Roots.cached?_of_isChosen goroot vendor cache hq rfl, ?_, ?_, ?_⟩
  · rw [String.append_right_inj]
    exact ⟨Requirement.rest_of_join hu hv, fun h => by rw [h]⟩
  · exact fun hr => Requirement.components_join_iff hu hv hcu hcv hr cache
  · exact fun hr hup hup' disk place hfu hfv =>
      Requirement.components_of_find hu hv hcu hcv hr hup hup' hfu hfv

theorem isChosen_singleton {r : Requirement} {path : String} (h : r.Holds path) :
    Requirement.IsChosen [r] path r where
  holds := h
  longest := fun s hs _ => by rw [List.mem_singleton.mp hs]
  first := by simp

/-- Two packages whose names differ in the size of a letter. -/
theorem escapePath_loses_nothing_sizes :
    unescapePath (escapePath "a.b/Big/DB".toList) = "a.b/Big/DB".toList ∧
      let r : Requirement := ⟨"a.b/Big", "v1"⟩
      let roots := Roots.ofParts none none (some (Text.bytes "/mod")) [r]
      Requirement.IsChosen [r] "a.b/Big/DB" r ∧ Requirement.IsChosen [r] "a.b/Big/Db" r ∧
        roots.cached? "a.b/Big/DB" = some (Text.bytes "/mod/a.b/!big@v1/!d!b") ∧
        (roots.cached? "a.b/Big/DB").map Path.components ≠
          (roots.cached? "a.b/Big/Db").map Path.components := by
  obtain ⟨hdecode, -, -, -, hcache⟩ := escapePath_loses_nothing
  have hlarge : Requirement.IsChosen [⟨"a.b/Big", "v1"⟩] "a.b/Big/DB" ⟨"a.b/Big", "v1"⟩ :=
    isChosen_singleton (.inr ⟨"DB", by decide⟩)
  have hsmall : Requirement.IsChosen [⟨"a.b/Big", "v1"⟩] "a.b/Big/Db" ⟨"a.b/Big", "v1"⟩ :=
    isChosen_singleton (.inr ⟨"Db", by decide⟩)
  obtain ⟨dir, dir', hdir, hdir', -, hpaths, -⟩ := hcache none none "/mod" _ _ _ _ hlarge hsmall
    (by decide) (by decide)
  refine ⟨hdecode _ (by decide), hlarge, hsmall, ?_, ?_⟩
  · have hrest : "a.b/Big/DB" = "a.b/Big" ++ "/DB" := by decide
    exact (Roots.cached?_of_isChosen none none "/mod" hlarge hrest).trans (by decide +kernel)
  · rw [hdir, hdir']
    exact fun h => absurd ((hpaths (by decide)).mp (Option.some.inj h)) (by decide +kernel)

/-- Two import paths of one module with one directory. -/
theorem escapePath_joins_slashes :
    let r : Requirement := ⟨"a.b/m", "v1"⟩
    let roots := Roots.ofParts none none (some (Text.bytes "/mod")) [r]
    let disk := ({} : Disk).addDir [] ["mod", "a.b", "m@v1", "x"]
    Requirement.IsChosen [r] "a.b/m/x" r ∧ Requirement.IsChosen [r] "a.b/m//x" r ∧
      ∃ dir dir', roots.locate disk "a.b/m/x" = some dir ∧
        roots.locate disk "a.b/m//x" = some dir' ∧ Path.components dir = Path.components dir' := by
  intro r roots disk
  refine ⟨isChosen_singleton (.inr ⟨"x", by decide⟩), isChosen_singleton (.inr ⟨"/x", by decide⟩),
    Text.bytes "/mod/a.b/m@v1/x", Text.bytes "/mod/a.b/m@v1//x", ?_, ?_, ?_⟩ <;> decide +kernel

end GoCalls
