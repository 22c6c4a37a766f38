import MarkdownLinks.Lint.Run
import MarkdownLinks.Proofs.Lint.Discovery

/-! Which documents a run reads, in a tree without links. Every document leads to a file. Reading stops one byte
behind the limit, and no file has more bytes than can be read at all, so a document is read exactly when the system
follows its path and lets it be read as far as that, its file keeps the limit and the bytes are UTF-8. Each document
of a run is read or skipped, and none is both. -/

namespace MarkdownLinks

/-- Whether a skip is one of a document that was found and not read. -/
def Skipped.isUnread (s : Skipped) : Bool := s.reason ≠ .unwalkable ∧ s.reason ≠ .badPattern

namespace FileTree

open MarkdownLinks.Path

section
variable {t : FileTree} {search : Search} {path : Text} {location : Location} {bytes : ByteArray}

/-- In a tree without links, a path that is found from a root is the root joined with the names that lead from its
place to a file. -/
theorem FoundFrom.exists_names (ht : t.WellFormed) (hfree : t.LinkFree) {root : Text}
    (h : FoundFrom t search root path) :
    ∃ location e names bytes, t.status root = .ok (location, e) ∧ (∀ n ∈ names, IsName n) ∧
      path = joinAll root names ∧ t.place? path = some (location ++ names) ∧
        t.entry? (location ++ names) = some (.file bytes) := by
  cases h with
  | @root location bytes hstatus =>
      obtain ⟨-, hplace, hfile⟩ := place?_of_status hstatus
      rw [← List.append_nil location] at hplace hfile
      exact ⟨location, _, [], bytes, hstatus, fun _ h => (nomatch h), rfl, hplace, hfile⟩
  | @below location names hstatus _ hdescent =>
      obtain ⟨hne, hplace, hdirectory⟩ := place?_of_status hstatus
      obtain ⟨bytes, hfile⟩ := hdescent.exists_file
      exact ⟨location, _, names, bytes, hstatus, fun n hn => (hdescent.isName ht n hn).1, rfl,
        place?_joinAll ht hfree hne hplace (isDirectory_iff.2 hdirectory) hdescent, hfile⟩

theorem exists_place_of_mem_visits (ht : t.WellFormed) (hfree : t.LinkFree) (h : .file path ∈ t.visits search) :
    path ≠ [] ∧ ∃ location bytes, t.place? path = some location ∧ t.entry? location = some (.file bytes) := by
  obtain ⟨root, -, hwalk⟩ := List.mem_flatMap.1 h
  obtain ⟨location, e, names, bytes, hroot, -, rfl, hplace, hfile⟩ :=
    (foundFrom_of_mem_walk ht (fun _ => hfree) hwalk).exists_names ht hfree
  exact ⟨joinAll_ne_nil (place?_of_status hroot).1 names, _, bytes, hplace, hfile⟩

/-- Every document leads to a file. -/
theorem exists_place_of_mem_documents (ht : t.WellFormed) (hfree : t.LinkFree) (h : path ∈ t.documents search) :
    path ≠ [] ∧ ∃ location bytes, t.place? path = some location ∧ t.entry? location = some (.file bytes) :=
  exists_place_of_mem_visits ht hfree (mem_candidates_iff.1 (mem_of_mem_sortPaths h)).1

/-- The documents of a search that selects every file it comes across. -/
theorem documents_of_selected {ps qs : List Text} (hvisits : t.visits search = ps.map .file)
    (hselects : ∀ p ∈ ps, search.selects p = true) (hsort : sortPaths ps = qs) : t.documents search = qs := by
  rw [documents, hvisits, List.filterMap_map, ← hsort]
  exact congrArg sortPaths <|
    (List.filterMap_congr fun p hp => if_pos (hselects p hp)).trans List.filterMap_some

theorem documents_of_visits (hvisits : t.visits search = [.file path]) (hselects : search.selects path = true) :
    t.documents search = [path] := by
  have hvisits : t.visits search = [path].map .file := hvisits
  exact documents_of_selected hvisits (List.forall_mem_singleton.2 hselects) (by simp [sortPaths, dropRepeats])

/-- The first bytes of a file, one more than the limit, are over the limit if the file is, and all there is if
it is not. -/
theorem extract_of_limit (limit : Nat) (hsize : bytes.size ≤ maxFileBytes) :
    let read := bytes.extract 0 (readSize limit)
    (limit < read.size ↔ limit < bytes.size) ∧ (bytes.size ≤ limit → read = bytes) := by
  refine ⟨?_, fun hle => ?_⟩
  · rw [ByteArray.size_extract, readSize]
    omega
  · have hall : bytes.size ≤ readSize limit := by
      rw [readSize]
      omega
    rw [← Nat.max_eq_left hall, ByteArray.extract_zero_max_size]

/-- What the system has against a document that is to be read: its path is not followed, or reading breaks off before
it is told whether the file keeps the limit. -/
inductive ReadRefused (t : FileTree) (limit : Nat) (path : Text) : Fault → Prop
  | path {fault : Fault} (h : t.resolve .find path = .error fault) : ReadRefused t limit path fault
  | bytes {location : Location} {bytes : ByteArray} {behind : Nat} {fault : Fault}
      (h : t.resolve .find path = .ok location) (hfile : t.entry? location = some (.file bytes))
      (hread : (t.refusals location).read = some (behind, fault)) (hwanted : behind < readSize limit)
      (hsize : behind ≤ bytes.size) : ReadRefused t limit path fault

/-- What reading a file comes to, as far as it is read. -/
theorem readDocument_of_file (ht : t.WellFormed) (hresolve : t.resolve .find path = .ok location)
    (hfile : t.entry? location = some (.file bytes)) (limit : Nat) :
    t.readDocument limit path =
      match (t.refusals location).readFault? bytes.size (readSize limit) with
      | some fault => .error (.system fault.message)
      | none =>
          if limit < bytes.size then .error (.tooLarge limit)
          else
            match Utf8.decode? bytes with
            | some text => .ok text
            | none => .error .notUtf8 := by
  have hsize : bytes.size ≤ maxFileBytes :=
    ht.size_le _ (mem_entries_of_eq_some (ne_nil_of_file hfile) hfile)
  obtain ⟨hover, hall⟩ := extract_of_limit limit hsize
  rw [readDocument, fileAt_of_resolve hresolve hfile]
  dsimp only
  cases (t.refusals location).readFault? bytes.size (readSize limit) with
  | some fault => rfl
  | none =>
      dsimp only
      by_cases hlimit : limit < bytes.size
      · rw [if_pos (hover.2 hlimit), if_pos hlimit]
      · have hread := hall (Nat.le_of_not_lt hlimit)
        cases hdecode : Utf8.decode? bytes <;> simp only [hread, hdecode, hlimit, if_false]

theorem readDocument_of_error {fault : Fault} (h : t.resolve .find path = .error fault) (limit : Nat) :
    t.readDocument limit path = .error (.system fault.message) := by
  rw [readDocument, fileAt_of_error h]

theorem readDocument_of_readRefused {limit : Nat} {fault : Fault} (ht : t.WellFormed)
    (h : t.ReadRefused limit path fault) : t.readDocument limit path = .error (.system fault.message) := by
  cases h with
  | path h => exact readDocument_of_error h limit
  | bytes h hfile hread hwanted hsize =>
      rw [readDocument_of_file ht h hfile, readFault?_eq_some_iff.2 ⟨_, hread, hwanted, hsize⟩]

/-- Where the system has nothing against it, a document is read if the file keeps the limit and the bytes are
UTF-8. -/
theorem readDocument_of_not_readRefused {limit : Nat} (ht : t.WellFormed) (hplace : t.place? path = some location)
    (hfile : t.entry? location = some (.file bytes)) (h : ∀ fault, ¬t.ReadRefused limit path fault) :
    t.readDocument limit path =
      if limit < bytes.size then .error (.tooLarge limit)
      else
        match Utf8.decode? bytes with
        | some text => .ok text
        | none => .error .notUtf8 := by
  have hresolve : t.resolve .find path = .ok location :=
    (resolve_eq_ok_or_error hplace).resolve_right fun ⟨fault, herror⟩ => h fault (.path herror)
  have hread : (t.refusals location).readFault? bytes.size (readSize limit) = none :=
    Option.eq_none_iff_forall_ne_some.2 fun fault hfault => by
      obtain ⟨behind, hread, hwanted, hsize⟩ := readFault?_eq_some_iff.1 hfault
      exact h fault (.bytes hresolve hfile hread hwanted hsize)
  rw [readDocument_of_file ht hresolve hfile, hread]

theorem readDocument_eq_ok_iff (ht : t.WellFormed) (hplace : t.place? path = some location)
    (hfile : t.entry? location = some (.file bytes)) {limit : Nat} {text : Text} :
    t.readDocument limit path = .ok text ↔
      (∀ fault, ¬t.ReadRefused limit path fault) ∧ bytes.size ≤ limit ∧ Utf8.decode? bytes = some text := by
  by_cases hrefused : ∃ fault, t.ReadRefused limit path fault
  · obtain ⟨fault, hfault⟩ := hrefused
    rw [readDocument_of_readRefused ht hfault]
    exact iff_of_false (fun h => by cases h) fun h => h.1 fault hfault
  · have hnone := not_exists.1 hrefused
    rw [readDocument_of_not_readRefused ht hplace hfile hnone, and_iff_right hnone]
    by_cases hlimit : limit < bytes.size
    · simp [hlimit]
    · cases hdecode : Utf8.decode? bytes with
      | none => simp [hlimit]
      | some s => simp [hlimit, Nat.le_of_not_lt hlimit]

/-- A path that is too long is not followed. -/
theorem readRefused_of_exceeds {limit : Nat} (hne : path ≠ []) (h : exceeds maxPathBytes path = true) :
    t.ReadRefused limit path .nameTooLong :=
  .path (by rw [resolve, if_neg hne, if_pos h])

/-- A tree in which the system refuses nothing. -/
def RefusesNothing (t : FileTree) : Prop := ∀ l, t.refusals l = {}

theorem RefusesNothing.not_readRefused (ht : t.RefusesNothing) {limit : Nat} (hne : path ≠ [])
    (hshort : exceeds maxPathBytes path = false) (hplace : t.place? path = some location) (fault : Fault) :
    ¬t.ReadRefused limit path fault := by
  have hopen : t.Open := fun l => by rw [ht]
  have hresolve := resolve_of_place? hopen hne hplace
  rw [hshort, if_neg Bool.false_ne_true] at hresolve
  rintro (herror | ⟨-, -, hread, -, -⟩)
  · cases hresolve.symm.trans herror
  · rw [ht] at hread
    cases hread

/-- Where the system refuses nothing, a document is read if its path is not too long, its file keeps the limit and the
bytes are UTF-8. -/
theorem RefusesNothing.readDocument_eq_ok (hopen : t.RefusesNothing) (ht : t.WellFormed) (hne : path ≠ [])
    (hshort : exceeds maxPathBytes path = false) (hplace : t.place? path = some location)
    (hfile : t.entry? location = some (.file bytes)) {limit : Nat} (hlimit : bytes.size ≤ limit) {text : Text}
    (htext : Utf8.decode? bytes = some text) : t.readDocument limit path = .ok text :=
  (readDocument_eq_ok_iff ht hplace hfile).2 ⟨hopen.not_readRefused hne hshort hplace, hlimit, htext⟩

theorem mem_scanned_iff {text : Text} :
    (path, text) ∈ t.scanned search ↔
      path ∈ t.documents search ∧ t.readDocument search.maxFileSize path = .ok text := by
  rw [scanned, List.mem_filterMap]
  constructor
  · rintro ⟨p, hp, h⟩
    split at h
    · rename_i hread
      cases h
      exact ⟨hp, hread⟩
    · cases h
  · rintro ⟨hp, hread⟩
    exact ⟨path, hp, by rw [hread]⟩

theorem scanned_of_documents {text : Text} (hdocuments : t.documents search = [path])
    (hread : t.readDocument search.maxFileSize path = .ok text) : t.scanned search = [(path, text)] := by
  rw [scanned, hdocuments, List.filterMap_cons, hread]
  rfl

theorem mem_unread_of_error {fault : ReadFault} (hp : path ∈ t.documents search)
    (hread : t.readDocument search.maxFileSize path = .error fault) :
    ⟨path, fault.reason, fault.message⟩ ∈ t.unread search :=
  List.mem_filterMap.2 ⟨path, hp, by rw [hread]⟩

/-- Every document is read or not, and counted once. -/
theorem length_scanned_add_length_unread (t : FileTree) (search : Search) :
    (t.scanned search).length + (t.unread search).length = (t.documents search).length := by
  rw [scanned, unread]
  induction t.documents search with
  | nil => rfl
  | cons p ps ih =>
      rw [List.filterMap_cons, List.filterMap_cons]
      cases t.readDocument search.maxFileSize p <;> simp only [List.length_cons] <;> omega

theorem map_fst_scanned_sublist (t : FileTree) (search : Search) :
    ((t.scanned search).map Prod.fst).Sublist (t.documents search) := by
  rw [scanned]
  induction t.documents search with
  | nil => exact .slnil
  | cons p ps ih =>
      rw [List.filterMap_cons]
      cases t.readDocument search.maxFileSize p with
      | ok text => exact ih.cons_cons p
      | error fault => exact ih.cons p

/-- A run fails only if there is no path to begin with, or one that leads nowhere. -/
theorem lint_eq_ok_iff {checks : Checks} {r : Report} :
    t.lint search checks = .ok r ↔
      search.paths ≠ [] ∧ (∀ root ∈ search.paths, t.pathExists root = true) ∧ r = t.report search checks := by
  rw [lint]
  split
  · simp_all
  · rename_i hpaths
    split
    · rename_i root hfind
      have hmissing := List.find?_some hfind
      simp only [Bool.not_eq_true'] at hmissing
      refine iff_of_false (fun h => by cases h) fun h => ?_
      rw [h.2.1 root (List.mem_of_find?_eq_some hfind)] at hmissing
      cases hmissing
    · rename_i hfind
      have hexist : ∀ root ∈ search.paths, t.pathExists root = true := by simpa using hfind
      rw [Except.ok.injEq]
      exact ⟨fun h => ⟨hpaths, hexist, h.symm⟩, fun h => h.2.2.symm⟩

/-- Skips that a search makes before it reads anything are of patterns and of places, not of documents. -/
theorem isUnread_eq_false_of_mem_unvisited {s : Skipped} (h : s ∈ t.unvisited search) : s.isUnread = false := by
  rcases List.mem_append.1 h with h | h
  · obtain ⟨pattern, -, hs⟩ := List.mem_filterMap.1 h
    split at hs
    · cases hs
    · cases hs
      rfl
  · obtain ⟨v, -, hs⟩ := List.mem_filterMap.1 h
    cases v with
    | file _ => cases hs
    | fault p fault =>
        cases hs
        rfl

theorem isUnread_of_mem_unread {s : Skipped} (h : s ∈ t.unread search) : s.isUnread = true := by
  obtain ⟨p, -, hs⟩ := List.mem_filterMap.1 h
  split at hs
  · cases hs
  · rename_i fault _
    cases hs
    cases fault <;> rfl

end

end FileTree

end MarkdownLinks
