import Mathlib.Data.Finset.Card
import TwoIne.Debugger.SourceCache
import TwoIne.Lib.Runs
import TwoIne.Proofs.Debugger.SourceFile

/-! Which requests for a source file that was loaded before are served without loading it again. -/

namespace TwoIne

open CStrings Cells Runs

/-- The files that were kept. -/
def DwarfSources.files (g : DwarfSources) : List SourceFile := (g.slots.getD []).take g.sourceCount

/-- The text at an address that was returned. -/
def DwarfSources.textAt (g : DwarfSources) (lines : Nat) : Option SourceText :=
  match read g.heap lines with
  | some (.text text) => some text
  | _ => none

/-- A request that was served. -/
structure ServedSource where
  filename : List UInt8
  lines : Nat
  numLines : Nat
  /-- What was at the address as it was returned. -/
  text : Option SourceText
  /-- The file was loaded, from a path other than its name. -/
  elsewhere : Bool
  deriving DecidableEq, Repr

/-- A run of requests: what is kept of files, and the requests that were served. -/
structure SourceRun where
  sources : DwarfSources := {}
  served : List ServedSource := []
  deriving DecidableEq, Repr

/-- A request: what it meets, and the name. -/
abbrev SourceRequest := SourceHost × Option (List UInt8)

/-- The record of a request, if it was served. -/
def servedBy (request : SourceRequest) (after : DwarfSources) (reply : SourceReply) :
    List ServedSource :=
  match request.2, reply.answer with
  | some filename, some (lines, numLines) =>
    [{ filename, lines, numLines
       text := after.textAt lines
       elsewhere := reply.searched && (request.1.files filename).isNone }]
  | _, _ => []

/-- One request of a run. -/
def sourceStep (s : SourceRun) (request : SourceRequest) : Option (SourceRun × SourceReply) := do
  let (after, reply) ← dwarfGetSource request.1 request.2 s.sources
  return (⟨after, s.served ++ servedBy request after reply⟩, reply)

/-- The names that were served. -/
def SourceRun.names (s : SourceRun) : Finset (List UInt8) :=
  (s.served.map ServedSource.filename).toFinset

/-- What was returned is still there, and no more files are kept than names were served. -/
structure SourceRun.Good (s : SourceRun) : Prop where
  valid : ∀ a ∈ s.served, a.text ≠ none ∧ s.sources.textAt a.lines = a.text
  atMostOne : s.sources.sourceCount ≤ s.names.card

/-- A name that was served before is served the same, without loading or keeping a file. -/
def ServedAgain (s : SourceRun) (request : SourceRequest) (t : SourceRun) (reply : SourceReply) :
    Prop :=
  ∀ a ∈ s.served, request.2 = some a.filename →
    reply = ⟨some (a.lines, a.numLines), false⟩ ∧
      t.sources.sourceCount = s.sources.sourceCount

/--
The condition on a request: no file without a path is met, no file that does not fit is loaded, and
the name is none whose file was loaded from another path.
-/
structure SourceRun.Meets (s : SourceRun) (request : SourceRequest) : Prop where
  named : ∀ filename, s.sources.loaded = true → request.2 = some filename →
    ∀ file ∈ s.sources.files.takeWhile (·.path ≠ some filename), file.path ≠ none
  fits : ∀ filename path size raw, s.sources.loaded = true → request.2 = some filename →
    (∀ file ∈ s.sources.files, file.path ≠ some filename) →
    request.1.malloc ((s.sources.sourceCount + 1) * 16) = true →
    findSourceFile request.1 s.sources.progDir filename = some (path, size, raw) →
    SourceFits request.1.malloc size raw
  asGiven : ∀ a ∈ s.served, request.2 = some a.filename → a.elsewhere = false

section Lookups

variable {filename : List UInt8} {files before rest : List SourceFile} {file : SourceFile}

/-- Files with other paths are passed. -/
theorem cachedSource_passed (named : ∀ f ∈ before, f.path ≠ none)
    (other : ∀ f ∈ before, f.path ≠ some filename) :
    cachedSource filename (before ++ rest) = cachedSource filename rest := by
  -- Every comparison in front has a path and comes out unequal, so the induction only strips the
  -- files off.
  induction before with
  | nil => rfl
  | cons first before ih =>
    have later := ih (fun f member => named f (.tail _ member))
      (fun f member => other f (.tail _ member))
    cases path : first.path with
    | none => exact absurd path (named first (.head _))
    | some text =>
      have unequal : text ≠ filename := by
        intro same
        exact other first (.head _) (by rw [path, same])
      simp only [List.cons_append, cachedSource, path, if_neg unequal, later]

/-- The process is stopped exactly by a file without a path in front of one with the name. -/
theorem cachedSource_eq_none_iff :
    cachedSource filename files = none ↔
      ∃ f ∈ files.takeWhile (·.path ≠ some filename), f.path = none := by
  -- The search ends at the first match, so only the files that takeWhile keeps can stop the
  -- process.
  induction files with
  | nil => simp [cachedSource]
  | cons first files ih =>
    cases path : first.path with
    | none => simp [cachedSource, path]
    | some text =>
      by_cases same : text = filename
      · simp [cachedSource, path, same]
      · simp only [cachedSource, path, if_neg same, ih]
        simp [path, same]

/-- What is found is the first file with the name. -/
theorem cachedSource_hit (found : cachedSource filename files = some (some file)) :
    ∃ before after, files = before ++ file :: after ∧ file.path = some filename ∧
      ∀ f ∈ before, f.path ≠ some filename := by
  induction files with
  | nil => exact absurd found (by simp [cachedSource])
  | cons first files ih =>
    rw [cachedSource] at found
    cases path : first.path with
    | none =>
      simp only [path] at found
      contradiction
    | some text =>
      simp only [path] at found
      by_cases same : text = filename
      · rw [if_pos same] at found
        obtain rfl := Option.some.inj (Option.some.inj found)
        exact ⟨[], files, rfl, by rw [path, same], by simp⟩
      -- The first file is one that is passed.
      · rw [if_neg same] at found
        obtain ⟨before, after, rfl, named, others⟩ := ih found
        refine ⟨first :: before, after, rfl, named, ?_⟩
        intro f member
        rcases List.mem_cons.mp member with rfl | later
        · simpa [path] using same
        · exact others f later

/-- Where nothing is found, no file has the name. -/
theorem cachedSource_miss (missed : cachedSource filename files = some none) :
    ∀ f ∈ files, f.path ≠ some filename := by
  -- A search that comes to the end of the files has compared each of them.
  induction files with
  | nil => simp
  | cons first files ih =>
    rw [cachedSource] at missed
    cases path : first.path with
    | none =>
      simp only [path] at missed
      contradiction
    | some text =>
      simp only [path] at missed
      by_cases same : text = filename
      · rw [if_pos same] at missed
        exact absurd (Option.some.inj missed) (by simp)
      · rw [if_neg same] at missed
        intro f member
        rcases List.mem_cons.mp member with rfl | later
        · simpa [path] using same
        · exact ih missed f later

/-- The path that a name is found at opens. -/
theorem findSourceFile_opens {host : SourceHost} {progDir path raw : List UInt8} {size : Int}
    (found : findSourceFile host progDir filename = some (path, size, raw)) :
    host.files path = some (size, raw) := by
  -- Both ways of finding a file hand on what opening the path gave.
  unfold findSourceFile at found
  cases opened : host.files filename with
  | some file =>
    simp only [opened, Option.some.injEq, Prod.mk.injEq] at found
    rw [← found.1, opened, found.2]
  | none =>
    simp only [opened] at found
    obtain ⟨tried, _, opens⟩ := List.exists_of_findSome?_eq_some found
    simp only [Option.map_eq_some_iff, Prod.mk.injEq] at opens
    obtain ⟨file, read, rfl, same⟩ := opens
    rw [read, same]

/-- A name is found at itself exactly when it opens as it is. -/
theorem findSourceFile_path {host : SourceHost} {progDir path raw : List UInt8} {size : Int}
    (found : findSourceFile host progDir filename = some (path, size, raw)) :
    path = filename ↔ (host.files filename).isNone = false := by
  have opens := findSourceFile_opens found
  cases opened : host.files filename with
  | some file =>
    simp only [findSourceFile, opened, Option.some.injEq, Prod.mk.injEq] at found
    simp [found.1]
  -- A path that opens is not the one that did not.
  | none =>
    simp only [Option.isNone_none, Bool.true_eq_false, iff_false]
    intro same
    rw [same, opened] at opens
    contradiction

end Lookups

/-- The array holds the files that are kept, each with a text of its own. -/
structure DwarfSources.Kept (g : DwarfSources) : Prop where
  slots : ∃ slots, g.slots = some slots ∧ g.sourceCount ≤ slots.length
  live : ∀ file ∈ g.files, ∃ text, g.textAt file.lines = some text
  distinct : (g.files.map SourceFile.lines).Nodup

/-- Texts stay where they are. -/
def KeepsTexts (g h : DwarfSources) : Prop :=
  ∀ place text, g.textAt place = some text → h.textAt place = some text

section Keeping

variable {g : DwarfSources}

/-- A text is what the cell at the address holds. -/
theorem textAt_eq_some_iff {place : Nat} {text : SourceText} :
    g.textAt place = some text ↔ read g.heap place = some (.text text) := by
  unfold DwarfSources.textAt
  cases read g.heap place with
  | none => simp
  | some block => cases block <;> simp

/-- There are as many files as are counted. -/
theorem DwarfSources.Kept.length (kept : g.Kept) : g.files.length = g.sourceCount := by
  obtain ⟨slots, found, enough⟩ := kept.slots
  rw [DwarfSources.files, found]
  simpa using enough

/-- The array is where its pointer leads. -/
theorem slots_eq_some_iff {place : Nat} (pointed : g.sources = some place)
    {slots : List SourceFile} :
    g.slots = some slots ↔ read g.heap place = some (.sources slots) := by
  -- The array is read through its pointer, and no other kind of cell is taken for it.
  unfold DwarfSources.slots
  simp only [pointed]
  cases held : read g.heap place with
  | none => simp
  | some block => cases block <;> simp

/-- Growing the array moves no text, and the array is there with its new elements. -/
theorem grown_spec (kept : g.Kept) (moves : Bool) (slots : List SourceFile) :
    KeepsTexts g (g.grown moves slots) ∧
      ∃ place, (g.grown moves slots).sources = some place ∧
        read (g.grown moves slots).heap place = some (.sources slots) := by
  unfold DwarfSources.grown
  cases pointed : g.sources with
  | none =>
    refine ⟨?_, fresh g.heap, rfl, read_alloc_fresh _ _⟩
    intro place text found
    exact textAt_eq_some_iff.mpr (read_alloc_live _ (textAt_eq_some_iff.mp found))
  | some array =>
    obtain ⟨old, found, _⟩ := kept.slots
    have held := (slots_eq_some_iff pointed).mp found
    -- The array is no text, so that a text is elsewhere.
    have apart : ∀ place text, g.textAt place = some text → place ≠ array := by
      intro place text there same
      rw [textAt_eq_some_iff, same, held] at there
      exact absurd (Option.some.inj there) (by simp)
    cases moves with
    | true =>
      refine ⟨?_, fresh g.heap, rfl, ?_⟩
      · intro place text there
        apply textAt_eq_some_iff.mpr
        apply read_alloc_live
        rw [read_free_ne (apart place text there)]
        exact textAt_eq_some_iff.mp there
      · have same : fresh (free g.heap array) = fresh g.heap := fresh_free _ _
        show read (alloc (free g.heap array) _) (fresh g.heap) = _
        rw [← same]
        exact read_alloc_fresh _ _
    | false =>
      refine ⟨?_, array, rfl, read_write_self _ held⟩
      intro place text there
      apply textAt_eq_some_iff.mpr
      show read (write g.heap array _) place = _
      rw [read_write_ne _ (apart place text there)]
      exact textAt_eq_some_iff.mp there

/-- Growing the array leaves everything else as it is. -/
theorem grown_fields (moves : Bool) (slots : List SourceFile) :
    (g.grown moves slots).loaded = g.loaded ∧ (g.grown moves slots).progDir = g.progDir ∧
      (g.grown moves slots).sourceCount = g.sourceCount := by
  unfold DwarfSources.grown
  split
  · exact ⟨rfl, rfl, rfl⟩
  · split <;> exact ⟨rfl, rfl, rfl⟩

/-- A text stays where it is across two changes. -/
theorem KeepsTexts.trans {h k : DwarfSources} (first : KeepsTexts g h) (second : KeepsTexts h k) :
    KeepsTexts g k :=
  fun place text there => second place text (first place text there)

/-- A larger array has the same files, and an element that is none of them. -/
theorem grown_files (kept : g.Kept) (moves : Bool) :
    (g.grown moves (g.files ++ [zeroSource])).files = g.files := by
  obtain ⟨_, place, pointed, held⟩ := grown_spec kept moves (g.files ++ [zeroSource])
  rw [DwarfSources.files, (slots_eq_some_iff pointed).mpr held, (grown_fields _ _).2.2, ← kept.length]
  simp

/-- Growing the array keeps the files. -/
theorem grown_kept (kept : g.Kept) (moves : Bool) : (g.grown moves (g.files ++ [zeroSource])).Kept := by
  -- The first elements are the old ones, and their texts stay where they are.
  obtain ⟨texts, place, pointed, held⟩ := grown_spec kept moves (g.files ++ [zeroSource])
  have files := grown_files kept moves
  constructor
  · refine ⟨g.files ++ [zeroSource], (slots_eq_some_iff pointed).mpr held, ?_⟩
    rw [(grown_fields _ _).2.2, ← kept.length]
    simp
  · intro file member
    rw [files] at member
    obtain ⟨text, there⟩ := kept.live file member
    exact ⟨text, texts _ _ there⟩
  · rw [files]
    exact kept.distinct

/-- What a file and its text are once they are kept. -/
structure KeptWith (g k : DwarfSources) (file : SourceFile) (text : SourceText) : Prop where
  loaded : k.loaded = g.loaded
  count : k.sourceCount = g.sourceCount + 1
  files : k.files = g.files ++ [file]
  texts : KeepsTexts g k
  text : k.textAt file.lines = some text
  kept : k.Kept

/-- A file that was loaded is kept behind the others, with a text of its own. -/
theorem keep_spec (kept : g.Kept) (moves : Bool) (path : Option (List UInt8)) (text : SourceText) :
    let h := g.grown moves (g.files ++ [zeroSource])
    KeptWith g (h.keep g.files path text) ⟨path, fresh h.heap, text.numLines⟩ text := by
  intro h
  obtain ⟨texts, place, pointed, held⟩ := grown_spec kept moves (g.files ++ [zeroSource])
  have fields := grown_fields (g := g) moves (g.files ++ [zeroSource])
  let file : SourceFile := ⟨path, fresh h.heap, text.numLines⟩
  let k : DwarfSources :=
    { h with
      heap := write (alloc h.heap (.text text)) place (.sources (g.files ++ [file]))
      sourceCount := h.sourceCount + 1 }
  have stored : h.keep g.files path text = k := by
    unfold DwarfSources.keep
    split
    next missing => exact absurd (missing.symm.trans pointed) (by simp)
    next array there =>
      obtain rfl : array = place := Option.some.inj (there.symm.trans pointed)
      rfl
  have count : k.sourceCount = g.sourceCount + 1 := congrArg (· + 1) fields.2.2
  have array : k.slots = some (g.files ++ [file]) :=
    (slots_eq_some_iff (g := k) pointed).mpr (read_write_self _ (read_alloc_live _ held))
  have files : k.files = g.files ++ [file] := by
    rw [DwarfSources.files, array, count, ← kept.length]
    exact List.take_of_length_le (by simp)
  -- The array is in front of the new text, and at none of the old ones.
  have place_lt : place < fresh h.heap := read_lt_fresh held
  have new_text : k.textAt file.lines = some text := by
    apply textAt_eq_some_iff.mpr
    show read (write _ place _) (fresh h.heap) = _
    rw [read_write_ne _ (Nat.ne_of_gt place_lt)]
    exact read_alloc_fresh _ _
  have moved : KeepsTexts h k := by
    intro other old there
    have live := textAt_eq_some_iff.mp there
    have apart : other ≠ place := by
      intro same
      rw [same, show read h.heap place = _ from held] at live
      exact absurd (Option.some.inj live) (by simp)
    apply textAt_eq_some_iff.mpr
    show read (write _ place _) other = _
    rw [read_write_ne _ apart]
    exact read_alloc_live _ live
  rw [stored]
  refine ⟨fields.1, count, files, texts.trans moved, new_text, ?_, ?_, ?_⟩
  · exact ⟨_, array, by rw [count, ← kept.length]; simp⟩
  · intro f member
    rw [files, List.mem_append, List.mem_singleton] at member
    rcases member with old | rfl
    · obtain ⟨oldText, there⟩ := kept.live f old
      exact ⟨oldText, moved _ _ (texts _ _ there)⟩
    · exact ⟨text, new_text⟩
  -- The texts of the other files were there before the new one.
  · rw [files, List.map_append, List.map_singleton]
    apply List.Nodup.append kept.distinct (by simp)
    intro lines old new
    obtain ⟨f, member, rfl⟩ := List.mem_map.mp old
    obtain ⟨oldText, there⟩ := kept.live f member
    have below := read_lt_fresh (textAt_eq_some_iff.mp (texts _ _ there))
    rw [List.mem_singleton.mp new] at below
    exact Nat.lt_irrefl _ below

end Keeping

section Requests

variable {g : DwarfSources}

/-- What a file that was looked for leaves of the array, and the reply to the request. -/
def keepLoaded (host : SourceHost) (g : DwarfSources) :
    Option (List UInt8 × SourceText) → DwarfSources × SourceReply
  | none => (g.grown host.moves (g.files ++ [zeroSource]), ⟨none, true⟩)
  | some (used, text) =>
    let h := g.grown host.moves (g.files ++ [zeroSource])
    let path := if host.malloc (used.length + 1) then some used else none
    (h.keep g.files path text, ⟨some (fresh h.heap, text.numLines), true⟩)

/-- A request is a search among the files that are kept, and a load if none has the name. -/
theorem dwarfGetSource_eq (host : SourceHost) (filename : List UInt8) (kept : g.Kept)
    (loaded : g.loaded = true) :
    dwarfGetSource host (some filename) g =
      match cachedSource filename g.files with
      | none => none
      | some (some file) => some (g, ⟨some (file.lines, file.numLines), false⟩)
      | some none =>
        if host.malloc ((g.sourceCount + 1) * 16) then
          (loadSourceFile host g.progDir filename).map (keepLoaded host g)
        else some (g, ⟨none, false⟩) := by
  -- The elements that are searched are the files that are counted, and growing the array changes no
  -- directory.
  obtain ⟨slots, found, _⟩ := kept.slots
  have files : g.files = slots.take g.sourceCount := by rw [DwarfSources.files, found]; rfl
  have progDir := (grown_fields (g := g) host.moves (g.files ++ [zeroSource])).2.1
  unfold dwarfGetSource
  simp only [loaded, found, ← files, Bool.not_true, Bool.false_eq_true, if_false,
    Option.bind_eq_bind, Option.bind_some]
  cases cached : cachedSource filename g.files with
  | none => rfl
  | some result =>
    cases result with
    | some file => rfl
    | none =>
      cases given : host.malloc ((g.sourceCount + 1) * 16) with
      | false => rfl
      | true =>
        simp only [Option.bind_some, progDir]
        cases loadSourceFile host g.progDir filename with
        | none => rfl
        | some text => cases text <;> rfl

end Requests

/--
The file that a request was served with: it is the first with the name, unless it has no path or
was loaded from another one.
-/
def ServedFrom (g : DwarfSources) (a : ServedSource) : Prop :=
  ∃ before file after, g.files = before ++ file :: after ∧
    file.lines = a.lines ∧ file.numLines = a.numLines ∧
    (a.elsewhere = false → (∀ f ∈ before, f.path ≠ some a.filename) ∧
      (file.path = some a.filename ∨ file.path = none)) ∧
    (a.elsewhere = true → file.path ≠ some a.filename)

/-- What every request that meets the condition preserves. -/
structure SourceRun.Inv (s : SourceRun) : Prop where
  kept : s.sources.Kept
  loaded : s.served ≠ [] → s.sources.loaded = true
  good : s.Good
  origins : ∀ a ∈ s.served, ServedFrom s.sources a

section Repeats

variable {g : DwarfSources} {a : ServedSource}

/-- A name is served again from the same file, unless that was loaded from another path. -/
theorem ServedFrom.again (origin : ServedFrom g a) (asGiven : a.elsewhere = false)
    (back : cachedSource a.filename g.files ≠ none) :
    ∃ file, cachedSource a.filename g.files = some (some file) ∧ file.lines = a.lines ∧
      file.numLines = a.numLines := by
  obtain ⟨before, file, after, files, lines, numLines, here, _⟩ := origin
  obtain ⟨others, path⟩ := here asGiven
  -- None of the files in front of it stops the search.
  have named : ∀ f ∈ before, f.path ≠ none := by
    intro f member missing
    apply back
    rw [cachedSource_eq_none_iff, files]
    refine ⟨f, ?_, missing⟩
    rw [List.takeWhile_append_of_pos (by simpa using others)]
    exact List.mem_append_left _ member
  rw [files, cachedSource_passed named others] at back ⊢
  rcases path with named_so | missing
  · exact ⟨file, by simp [cachedSource, named_so], lines, numLines⟩
  · exact absurd (by simp [cachedSource, missing]) back

/-- It is not found again, if it was loaded from another path: another file may be. -/
theorem ServedFrom.lost (origin : ServedFrom g a) (kept : g.Kept) (elsewhere : a.elsewhere = true)
    {file : SourceFile} (found : cachedSource a.filename g.files = some (some file)) :
    file.lines ≠ a.lines := by
  obtain ⟨before, own, after, files, lines, _, _, there⟩ := origin
  obtain ⟨front, back, split, path, _⟩ := cachedSource_hit found
  intro same
  -- Files with the same text are the same file.
  have own_member : own ∈ g.files := by
    rw [files]
    exact List.mem_append_right _ (.head _)
  have member : file ∈ g.files := by
    rw [split]
    exact List.mem_append_right _ (.head _)
  have equal : file = own :=
    List.inj_on_of_nodup_map kept.distinct member own_member (same.trans lines.symm)
  exact there elsewhere (equal ▸ path)

/-- A request stays served from its file while others are kept behind it. -/
theorem ServedFrom.kept {k : DwarfSources} (origin : ServedFrom g a) {more : List SourceFile}
    (files : k.files = g.files ++ more) : ServedFrom k a := by
  obtain ⟨before, file, after, split, rest⟩ := origin
  exact ⟨before, file, after ++ more, by rw [files, split]; simp, rest⟩

end Repeats

section Steps

variable {s t : SourceRun} {request : SourceRequest} {reply : SourceReply}

/-- A step of a run is a request and its record. -/
theorem sourceStep_eq_some_iff :
    sourceStep s request = some (t, reply) ↔
      ∃ after, dwarfGetSource request.1 request.2 s.sources = some (after, reply) ∧
        t = ⟨after, s.served ++ servedBy request after reply⟩ := by
  -- The record is made from what the request returned, whatever that is.
  unfold sourceStep
  cases dwarfGetSource request.1 request.2 s.sources with
  | none => simp
  | some result =>
    obtain ⟨after, replied⟩ := result
    constructor
    · intro same
      obtain ⟨rfl, rfl⟩ := Prod.mk.inj (Option.some.inj same)
      exact ⟨after, rfl, rfl⟩
    · intro ⟨other, came, same⟩
      obtain ⟨rfl, rfl⟩ := Prod.mk.inj (Option.some.inj came)
      rw [same]
      rfl

/-- A request that was answered as it should met the condition. -/
theorem meets_of_servedAgain (inv : s.Inv) (stepped : sourceStep s request = some (t, reply))
    (again : ServedAgain s request t reply) : s.Meets request := by
  obtain ⟨host, filename⟩ := request
  obtain ⟨after, came, rfl⟩ := sourceStep_eq_some_iff.mp stepped
  constructor
  · intro name loaded named file member missing
    obtain rfl : filename = some name := named
    rw [dwarfGetSource_eq _ _ inv.kept loaded, cachedSource_eq_none_iff.mpr ⟨file, member, missing⟩]
      at came
    contradiction
  · intro name path size raw loaded named others given found
    obtain rfl : filename = some name := named
    rw [dwarfGetSource_eq _ _ inv.kept loaded] at came
    cases cached : cachedSource name s.sources.files with
    | none =>
      rw [cached] at came
      contradiction
    | some result =>
      cases result with
      | some file =>
        obtain ⟨front, back, split, path, _⟩ := cachedSource_hit cached
        exact absurd path (others file (by rw [split]; exact List.mem_append_right _ (.head _)))
      -- The file was loaded, so that its text fits.
      | none =>
        simp only [cached, if_pos given, loadSourceFile, found] at came
        cases read : loadSourceText host.malloc size raw with
        | none =>
          simp only [read] at came
          contradiction
        | some text => exact sourceFits_of_result read
  · intro a member named
    obtain rfl : filename = some a.filename := named
    obtain ⟨rfl, _⟩ := again a member rfl
    have loaded := inv.loaded (List.ne_nil_of_mem member)
    by_contra elsewhere
    rw [dwarfGetSource_eq _ _ inv.kept loaded] at came
    cases cached : cachedSource a.filename s.sources.files with
    | none =>
      rw [cached] at came
      contradiction
    | some result =>
      cases result with
      -- Another file with the name is found, which has another text.
      | some file =>
        simp only [cached, Option.some.injEq, Prod.mk.injEq, SourceReply.mk.injEq] at came
        exact (inv.origins a member).lost inv.kept (by simpa using elsewhere) cached came.2.1.1
      -- Or the file is looked for again.
      | none =>
        simp only [cached] at came
        split at came
        · cases read : loadSourceFile host s.sources.progDir a.filename with
          | none =>
            simp only [read] at came
            contradiction
          | some text =>
            cases text <;> simp [read, keepLoaded] at came
        · simp at came

/-- The names of a longer run are those of the run so far, and the new one. -/
theorem names_append (k : DwarfSources) (record : List ServedSource) :
    SourceRun.names ⟨k, s.served ++ record⟩ =
      s.names ∪ (record.map ServedSource.filename).toFinset := by
  simp [SourceRun.names]

/-- Serving a request keeps the invariant, where what was there stays and what is new is right. -/
theorem SourceRun.Inv.next (inv : s.Inv) {k : DwarfSources} {record : List ServedSource}
    {more : List SourceFile} (kept : k.Kept) (loaded : k.loaded = s.sources.loaded)
    (texts : KeepsTexts s.sources k) (files : k.files = s.sources.files ++ more)
    (count : k.sourceCount ≤ (SourceRun.mk k (s.served ++ record)).names.card)
    (new : ∀ a ∈ record, s.sources.loaded = true ∧ a.text ≠ none ∧ k.textAt a.lines = a.text ∧
      ServedFrom k a) :
    SourceRun.Inv ⟨k, s.served ++ record⟩ := by
  -- What was served before rests on texts that stay and on files that stay in front; the rest is
  -- new.
  constructor
  · exact kept
  · intro some_served
    show k.loaded = true
    rw [loaded]
    obtain ⟨a, member⟩ := List.exists_mem_of_ne_nil _ some_served
    rcases List.mem_append.mp member with old | added
    · exact inv.loaded (List.ne_nil_of_mem old)
    · exact (new a added).1
  · refine ⟨?_, count⟩
    intro a member
    rcases List.mem_append.mp member with old | added
    · obtain ⟨present, there⟩ := inv.good.valid a old
      obtain ⟨text, same⟩ := Option.ne_none_iff_exists'.mp present
      refine ⟨present, ?_⟩
      rw [same] at there ⊢
      exact texts _ _ there
    · exact ⟨(new a added).2.1, (new a added).2.2.1⟩
  · intro a member
    rcases List.mem_append.mp member with old | added
    · exact (inv.origins a old).kept files
    · exact (new a added).2.2.2

/-- A request that leaves everything as it is and is not served keeps the invariant. -/
theorem SourceRun.Inv.idle (inv : s.Inv) : SourceRun.Inv ⟨s.sources, s.served ++ []⟩ := by
  rw [List.append_nil]
  exact inv

/-- A request for a name that was not served so far asks for nothing to be served again. -/
theorem servedAgain_of_new (new : ∀ a ∈ s.served, request.2 ≠ some a.filename) :
    ServedAgain s request t reply :=
  fun a member named => absurd named (new a member)

/-- A request that finds a file is served with it, and with the same one as before. -/
theorem step_of_hit (inv : s.Inv) (met : s.Meets request) (loaded : s.sources.loaded = true)
    {filename : List UInt8} (named : request.2 = some filename) {file : SourceFile}
    (cached : cachedSource filename s.sources.files = some (some file)) :
    ∃ t reply, sourceStep s request = some (t, reply) ∧ ServedAgain s request t reply ∧ t.Inv := by
  obtain ⟨host, name⟩ := request
  obtain rfl : name = some filename := named
  have came := dwarfGetSource_eq host filename inv.kept loaded
  simp only [cached] at came
  obtain ⟨before, after, split, path, others⟩ := cachedSource_hit cached
  refine ⟨_, _, sourceStep_eq_some_iff.mpr ⟨_, came, rfl⟩, ?_, ?_⟩
  -- The file is the one of the earlier request.
  · intro a member same
    obtain rfl : filename = a.filename := Option.some.inj same
    have back : cachedSource a.filename s.sources.files ≠ none := by simp [cached]
    obtain ⟨own, found, lines, numLines⟩ :=
      (inv.origins a member).again (met.asGiven a member rfl) back
    rw [cached] at found
    obtain rfl : file = own := Option.some.inj (Option.some.inj found)
    rw [lines, numLines]
    exact ⟨rfl, rfl⟩
  · apply inv.next inv.kept rfl (fun _ _ there => there) (List.append_nil _).symm
    · rw [names_append]
      exact inv.good.atMostOne.trans (Finset.card_le_card Finset.subset_union_left)
    · intro a member
      rw [servedBy, List.mem_singleton] at member
      obtain ⟨text, there⟩ := inv.kept.live file (by
        rw [split]
        exact List.mem_append_right _ (.head _))
      rw [member]
      refine ⟨loaded, by simp [there], rfl, before, file, after, split, rfl, rfl, ?_, by simp⟩
      exact fun _ => ⟨others, .inl path⟩

/-- A load whose text fits comes back. -/
theorem loadSourceFile_fits {host : SourceHost} {progDir filename : List UInt8}
    (fits : ∀ path size raw, findSourceFile host progDir filename = some (path, size, raw) →
      SourceFits host.malloc size raw) :
    ∃ result, loadSourceFile host progDir filename = some result ∧
      ∀ used text, result = some (used, text) →
        (used = filename ↔ (host.files filename).isNone = false) := by
  -- Either no path opens, or the text of the one that does is loaded in its blocks.
  unfold loadSourceFile
  cases found : findSourceFile host progDir filename with
  | none => exact ⟨none, rfl, by simp⟩
  | some file =>
    obtain ⟨path, size, raw⟩ := file
    obtain ⟨text, came, _⟩ := sourceRight_of_fits (fits path size raw found)
    refine ⟨text.map fun text => (path, text), by simp [came], ?_⟩
    intro used kept same
    obtain ⟨_, _, pair⟩ := Option.map_eq_some_iff.mp same
    rw [← (Prod.mk.inj pair).1]
    exact findSourceFile_path found

/-- A request that finds no file is one for a new name, and loads at most one file for it. -/
theorem step_of_miss (inv : s.Inv) (met : s.Meets request) (loaded : s.sources.loaded = true)
    {filename : List UInt8} (named : request.2 = some filename)
    (cached : cachedSource filename s.sources.files = some none) :
    ∃ t reply, sourceStep s request = some (t, reply) ∧ ServedAgain s request t reply ∧ t.Inv := by
  obtain ⟨host, name⟩ := request
  obtain rfl : name = some filename := named
  have others := cachedSource_miss cached
  -- A name that was served before is found.
  have new : ∀ a ∈ s.served, filename ≠ a.filename := by
    intro a member same
    subst same
    have back : cachedSource a.filename s.sources.files ≠ none := by simp [cached]
    obtain ⟨own, found, _⟩ := (inv.origins a member).again (met.asGiven a member rfl) back
    rw [cached] at found
    exact absurd (Option.some.inj found) (by simp)
  have fresh_name : ∀ a ∈ s.served, some filename ≠ some a.filename :=
    fun a member same => new a member (Option.some.inj same)
  have came := dwarfGetSource_eq host filename inv.kept loaded
  simp only [cached] at came
  by_cases given : host.malloc ((s.sources.sourceCount + 1) * 16) = true
  · have fits : ∀ path size raw,
        findSourceFile host s.sources.progDir filename = some (path, size, raw) →
        SourceFits host.malloc size raw :=
      fun path size raw found => met.fits filename path size raw loaded rfl others given found
    obtain ⟨result, read, used_iff⟩ := loadSourceFile_fits fits
    rw [if_pos given, read] at came
    refine ⟨_, _, sourceStep_eq_some_iff.mpr ⟨_, came, rfl⟩, servedAgain_of_new fresh_name, ?_⟩
    have fields := grown_fields (g := s.sources) host.moves (s.sources.files ++ [zeroSource])
    cases result with
    -- No file was loaded; the array is larger all the same.
    | none =>
      apply inv.next (grown_kept inv.kept host.moves) fields.1 (grown_spec inv.kept _ _).1
        ((grown_files inv.kept host.moves).trans (List.append_nil _).symm)
      · show (s.sources.grown host.moves (s.sources.files ++ [zeroSource])).sourceCount ≤ _
        rw [fields.2.2, names_append]
        exact inv.good.atMostOne.trans (Finset.card_le_card Finset.subset_union_left)
      · intro a member
        exact absurd member (by simp [servedBy])
    | some result =>
      obtain ⟨used, text⟩ := result
      have spec := keep_spec inv.kept host.moves
        (if host.malloc (used.length + 1) then some used else none) text
      apply inv.next spec.kept spec.loaded spec.texts spec.files
      · have unserved : filename ∉ s.names := by
          intro member
          obtain ⟨a, served, same⟩ := List.mem_map.mp (List.mem_toFinset.mp member)
          exact new a served same.symm
        rw [spec.count, names_append]
        show _ ≤ (s.names ∪ {filename}).card
        rw [Finset.card_union_of_disjoint (Finset.disjoint_singleton_right.mpr unserved),
          Finset.card_singleton]
        exact Nat.add_le_add_right inv.good.atMostOne 1
      · intro a member
        simp only [servedBy, List.mem_singleton, Bool.true_and] at member
        rw [member]
        refine ⟨loaded, by simp [spec.text], rfl, s.sources.files, _, [], spec.files, rfl, rfl,
          ?_, ?_⟩
        -- Found as given, it is the first file with the name, or has no path.
        · intro asGiven
          refine ⟨others, ?_⟩
          by_cases room : host.malloc (used.length + 1) = true
          · have equal : used = filename := (used_iff used text rfl).mpr asGiven
            left
            show (if _ then some used else none) = some filename
            rw [if_pos room, equal]
          · exact .inr (if_neg room)
        · intro elsewhere same
          by_cases room : host.malloc (used.length + 1) = true
          · have equal : used = filename := by simpa [room] using same
            rw [(used_iff used text rfl).mp equal] at elsewhere
            contradiction
          · simp [room] at same
  · rw [if_neg given] at came
    exact ⟨_, _, sourceStep_eq_some_iff.mpr ⟨_, came, rfl⟩, servedAgain_of_new fresh_name,
      inv.idle⟩

/-- A request that meets the condition is answered as it should, and keeps the invariant. -/
theorem step_of_meets (inv : s.Inv) (met : s.Meets request) :
    ∃ t reply, sourceStep s request = some (t, reply) ∧ ServedAgain s request t reply ∧ t.Inv := by
  by_cases loaded : s.sources.loaded = true
  · cases named : request.2 with
    | none =>
      have came : dwarfGetSource request.1 request.2 s.sources = some (s.sources, ⟨none, false⟩) := by
        simp [dwarfGetSource, loaded, named]
      refine ⟨_, _, sourceStep_eq_some_iff.mpr ⟨_, came, rfl⟩, ?_, ?_⟩
      · exact servedAgain_of_new fun a _ => by simp [named]
      · rw [servedBy, named]
        exact inv.idle
    | some filename =>
      cases cached : cachedSource filename s.sources.files with
      | none =>
        obtain ⟨file, member, missing⟩ := cachedSource_eq_none_iff.mp cached
        exact absurd missing (met.named filename loaded named file member)
      | some result =>
        cases result with
        | some file => exact step_of_hit inv met loaded named cached
        | none => exact step_of_miss inv met loaded named cached
  -- Without debug information nothing is served.
  · have came : dwarfGetSource request.1 request.2 s.sources = some (s.sources, ⟨none, false⟩) := by
      simp [dwarfGetSource, loaded]
    refine ⟨_, _, sourceStep_eq_some_iff.mpr ⟨_, came, rfl⟩, ?_, ?_⟩
    · intro a member
      exact absurd (inv.loaded (List.ne_nil_of_mem member)) loaded
    · have record : servedBy request s.sources ⟨none, false⟩ = [] := by
        unfold servedBy
        split <;> simp_all
      rw [record]
      exact inv.idle

end Steps

/--
A request meets the condition where every file that was kept has its path, no file has 512
megabytes, and the name was not loaded from another path.
-/
theorem SourceRun.meets_of_short {s : SourceRun} {request : SourceRequest}
    (named : ∀ file ∈ s.sources.files, file.path ≠ none)
    (short : ∀ path size raw, request.1.files path = some (size, raw) → raw.length < 2 ^ 29)
    (asGiven : ∀ a ∈ s.served, request.2 = some a.filename → a.elsewhere = false) :
    s.Meets request where
  named := fun _ _ _ file member => named file ((List.takeWhile_sublist _).subset member)
  fits := fun _ path size raw _ _ _ _ found =>
    short_file_fits (short path size raw (findSourceFile_opens found))
  asGiven := asGiven

/-- The run before the first request, once a program was read. -/
def startSources (loaded : Bool) (progDir : List UInt8) : SourceRun := ⟨{ loaded, progDir }, []⟩

/-- Nothing is kept at the start. -/
theorem inv_startSources (loaded : Bool) (progDir : List UInt8) :
    (startSources loaded progDir).Inv where
  kept := ⟨⟨[], rfl, Nat.zero_le 0⟩, by simp [startSources, DwarfSources.files],
    by simp [startSources, DwarfSources.files]⟩
  loaded := fun some_served => absurd rfl some_served
  good := ⟨by simp [startSources], Nat.zero_le _⟩
  origins := by simp [startSources]

/--
Every sequence of requests serves a name as it did before, with what it returned still in place,
exactly when each request meets the condition.
-/
theorem source_requests_right_iff (loaded : Bool) (progDir : List UInt8)
    (requests : List SourceRequest) :
    StaysGood sourceStep SourceRun.Good ServedAgain (startSources loaded progDir) requests ↔
      Each sourceStep SourceRun.Meets (startSources loaded progDir) requests := by
  -- The invariant holds at the start, decides every step, and is kept by the steps that meet the
  -- condition.
  have issued : Each sourceStep (fun _ _ => True) (startSources loaded progDir) requests :=
    each_of_forall (fun _ _ => trivial) requests
  have good_of_inv : ∀ s, SourceRun.Inv s → SourceRun.Good s := fun s inv => inv.good
  refine staysGood_iff_each_of_inv good_of_inv ?_ ?_
    (inv_startSources loaded progDir) issued
  · intro s request inv _
    constructor
    · intro ⟨t, reply, stepped, again, _⟩
      exact meets_of_servedAgain inv stepped again
    · intro met
      obtain ⟨t, reply, stepped, again, later⟩ := step_of_meets inv met
      exact ⟨t, reply, stepped, again, later.good⟩
  · intro s request t reply inv _ met stepped
    obtain ⟨u, other, came, _, later⟩ := step_of_meets inv met
    cases stepped.symm.trans came
    exact later

/-- A host with one file, at some path. -/
def hostWith (path : List UInt8) : SourceHost where
  files tried := if tried = path then some (2, [0x61, 0x0A]) else none
  td2ineAsmPath := none
  malloc size := size < 2 ^ 31
  moves := true

/-- A request for a name that opens as it is. -/
def requestAsGiven : SourceRequest := (hostWith (ascii "a.asm"), some (ascii "a.asm"))

/-- The name is served again from what was kept. -/
theorem given_name_served_again :
    StaysGood sourceStep SourceRun.Good ServedAgain (startSources true [])
      [requestAsGiven, requestAsGiven] := by
  -- The first request keeps the file under its own name, which is all that the second one needs.
  have short : ∀ path size raw, requestAsGiven.1.files path = some (size, raw) →
      raw.length < 2 ^ 29 := by
    intro path size raw opened
    simp only [requestAsGiven, hostWith, Option.ite_none_right_eq_some, Option.some.injEq,
      Prod.mk.injEq] at opened
    rw [← opened.2.2]
    decide
  have once : (sourceStep (startSources true []) requestAsGiven).map (fun result =>
      (result.1.sources.files.all (·.path.isSome), result.1.served.any ServedSource.elsewhere)) =
      some (true, false) := by decide
  refine (source_requests_right_iff true [] _).mpr ⟨?_, ?_⟩
  · exact SourceRun.meets_of_short (by simp [startSources, DwarfSources.files]) short
      (by simp [startSources])
  · intro t reply stepped
    rw [stepped] at once
    obtain ⟨paths, elsewhere⟩ := Prod.mk.inj (Option.some.inj once)
    refine ⟨SourceRun.meets_of_short ?_ short ?_, fun _ _ _ => trivial⟩
    · intro file member
      exact Option.isSome_iff_ne_none.mp (List.all_eq_true.mp paths file member)
    · intro a member _
      exact Bool.eq_false_iff.mpr (List.any_eq_false.mp elsewhere a member)

/-- A request for a name that is found in the directory of the tests. -/
def requestElsewhere : SourceRequest := (hostWith (ascii "tests/asm/a.asm"), some (ascii "a.asm"))

/-- The file is loaded again at the second request, and kept twice for one name. -/
theorem found_elsewhere_loaded_again :
    ¬ StaysGood sourceStep SourceRun.Good ServedAgain (startSources true [])
      [requestElsewhere, requestElsewhere] := by
  -- The run comes back, with two files kept and one name served.
  intro stays
  obtain ⟨s, ran⟩ := stays.ran
  have counts : (runFrom sourceStep (startSources true [])
      [requestElsewhere, requestElsewhere]).map
        (fun s => (s.sources.sourceCount, s.names.card)) = some (2, 1) := by decide
  rw [ran] at counts
  obtain ⟨files, names⟩ := Prod.mk.inj (Option.some.inj counts)
  have atMostOne := (stays.finish ran).atMostOne
  omega

end TwoIne
