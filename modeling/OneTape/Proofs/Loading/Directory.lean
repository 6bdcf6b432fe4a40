import Mathlib.Data.List.TakeWhile
import Mathlib.Data.String.Basic
import OneTape.Loading

/-!
The results are sorted by an order that tells no failure from another. It is a consistent order
all the same, and so the machines do not depend on how the directory was listed.
-/

namespace OneTape

namespace Files

theorem takeWhile_ne_dot_iff {cs tail : List Char} :
    cs.takeWhile (· ≠ '.') = tail ∧ tail.length + 1 < cs.length ↔
      '.' ∉ tail ∧ ∃ rest ≠ [], cs = tail ++ '.' :: rest := by
  constructor
  · rintro ⟨rfl, shorter⟩
    refine ⟨fun mem => by simpa using List.mem_takeWhile_imp mem, ?_⟩
    have split := List.takeWhile_append_dropWhile (p := (· ≠ '.')) (l := cs)
    cases dropped : cs.dropWhile (· ≠ '.') with
    | nil =>
      rw [dropped, List.append_nil] at split
      rw [split] at shorter
      omega
    | cons c rest =>
      have dot : c = '.' := by
        have stopped := List.head?_dropWhile_not (· ≠ '.') cs
        rw [dropped] at stopped
        simpa using stopped
      rw [dropped, dot] at split
      refine ⟨rest, ?_, split.symm⟩
      rintro rfl
      have := congrArg List.length split
      simp only [List.length_append, List.length_singleton] at this
      omega
  · rintro ⟨plain, rest, longer, rfl⟩
    rw [List.takeWhile_append_of_pos fun c mem => by simpa using ne_of_mem_of_not_mem mem plain]
    have := List.length_pos_of_ne_nil longer
    refine ⟨by simp, ?_⟩
    rw [List.length_append, List.length_cons]
    omega

theorem extension?_eq_some_iff {name ext : String} : extension? name = some ext ↔
    '.' ∉ ext.toList ∧ ∃ stem ≠ "", name = stem ++ "." ++ ext := by
  have reversed : extension? name = some ext ↔
      name.toList.reverse.takeWhile (· ≠ '.') = ext.toList.reverse ∧
        ext.toList.reverse.length + 1 < name.toList.reverse.length := by
    simp only [extension?, Option.ite_none_right_eq_some, Option.some.injEq]
    constructor
    · rintro ⟨shorter, rfl⟩
      rw [String.toList_ofList, List.reverse_reverse]
      exact ⟨rfl, shorter⟩
    · rintro ⟨same, shorter⟩
      rw [same, List.reverse_reverse, String.ofList_toList]
      exact ⟨shorter, rfl⟩
  rw [reversed, takeWhile_ne_dot_iff, List.mem_reverse]
  refine and_congr_right fun _ => ⟨?_, ?_⟩
  · rintro ⟨rest, longer, split⟩
    refine ⟨String.ofList rest.reverse, ?_, String.toList_injective ?_⟩
    · rwa [ne_eq, String.ofList_eq_empty_iff, List.reverse_eq_nil_iff]
    · simpa using congrArg List.reverse split
  · rintro ⟨stem, named, rfl⟩
    refine ⟨stem.toList.reverse, ?_, by simp⟩
    rwa [ne_eq, List.reverse_eq_nil_iff, String.toList_eq_nil_iff]

theorem join_lt_join_iff {directory a b : String} :
    join directory a < join directory b ↔ a < b := by
  have append (p : String) : p ++ a < p ++ b ↔ a < b := by
    simp only [String.lt_iff_toList_lt, String.toList_append]
    induction p.toList with
    | nil => rfl
    | cons c cs ih => simpa using ih
  simp only [join]
  split <;> exact append _

theorem join_injective (directory : String) : Function.Injective (join directory) :=
  fun _ _ same => le_antisymm (not_lt.1 fun below => (join_lt_join_iff.2 below).ne' same)
    (not_lt.1 fun below => (join_lt_join_iff.2 below).ne same)

end Files

/-! ## Successes and failures -/

section Results

variable {ε α : Type} {results : List (Except ε α)}

def successes (results : List (Except ε α)) : List α := results.filterMap Except.toOption

def failures (results : List (Except ε α)) : List ε :=
  results.filterMap fun | .ok _ => none | .error e => some e

@[simp] theorem successes_cons_ok (r : α) :
    successes (.ok r :: results) = r :: successes results := rfl

@[simp] theorem successes_cons_error (e : ε) :
    successes (.error e :: results) = successes results := rfl

@[simp] theorem failures_cons_ok (r : α) : failures (.ok r :: results) = failures results := rfl

@[simp] theorem failures_cons_error (e : ε) :
    failures (.error e :: results) = e :: failures results := rfl

theorem toOption_eq_some_iff {result : Except ε α} {r : α} :
    result.toOption = some r ↔ result = .ok r := by
  cases result <;> simp [Except.toOption]

theorem mem_successes {r : α} : r ∈ successes results ↔ .ok r ∈ results := by
  induction results with
  | nil => simp [successes]
  | cons result results ih => cases result <;> simp [ih]

theorem successes_append (results results' : List (Except ε α)) :
    successes (results ++ results') = successes results ++ successes results' :=
  List.filterMap_append

@[simp] theorem successes_map_error (es : List ε) :
    successes (es.map (.error : ε → Except ε α)) = [] := by
  induction es with
  | nil => rfl
  | cons e es ih => simp [ih]

@[simp] theorem failures_map_error (es : List ε) :
    failures (es.map (.error : ε → Except ε α)) = es := by
  induction es with
  | nil => rfl
  | cons e es ih => simp [ih]

theorem successes_perm {results' : List (Except ε α)} (perm : results.Perm results') :
    (successes results).Perm (successes results') := perm.filterMap _

theorem failures_perm {results' : List (Except ε α)} (perm : results.Perm results') :
    (failures results).Perm (failures results') := perm.filterMap _

theorem failures_sublist {results' : List (Except ε α)} (sub : results.Sublist results') :
    (failures results).Sublist (failures results') := sub.filterMap _

theorem map_error_failures_sublist : ((failures results).map .error).Sublist results := by
  induction results with
  | nil => exact .slnil
  | cons result results ih =>
    cases result with
    | ok r => exact ih.cons _
    | error e => exact ih.cons_cons _

end Results

namespace Machine

open Files (Access Entry Fault)

/-! ## The order of the results -/

def compareResults : Except Failure (String × Machine) → Except Failure (String × Machine) →
    Ordering
  | .ok a, .ok b => compare a.1 b.1
  | .ok _, .error _ => .lt
  | .error _, .ok _ => .gt
  | .error _, .error _ => .eq

instance : Std.TransCmp compareResults where
  eq_swap {a b} := by
    cases a with
    | error => cases b <;> rfl
    | ok a =>
      cases b with
      | error => rfl
      | ok b =>
        show compare a.1 b.1 = (compare b.1 a.1).swap
        exact Std.OrientedOrd.eq_swap
  isLE_trans {a b c} below above := by
    cases a with
    | error => cases b <;> cases c <;> simp_all [compareResults]
    | ok a =>
      cases c with
      | error => rfl
      | ok c =>
        cases b with
        | error => cases above
        | ok b =>
          show (compare a.1 c.1).isLE
          exact Std.TransOrd.isLE_trans (b := b.1) below above

def precedes (a b : Except Failure (String × Machine)) : Bool := (compareResults a b).isLE

variable {results : List (Except Failure (String × Machine))}

theorem precedes_ok {a b : String × Machine} : precedes (.ok a) (.ok b) ↔ a.1 ≤ b.1 := by
  rw [precedes, Ordering.isLE_iff_ne_gt]
  exact compare_le_iff_le

theorem precedes_trans (a b c : Except Failure (String × Machine)) (below : precedes a b)
    (above : precedes b c) : precedes a c := Std.TransCmp.isLE_trans below above

theorem precedes_total (a b : Except Failure (String × Machine)) :
    (precedes a b || precedes b a) := by
  have swapped : compareResults b a = (compareResults a b).swap := Std.OrientedCmp.eq_swap
  rw [precedes, precedes, swapped]
  cases compareResults a b <;> rfl

theorem sorted_mergeSort (results : List (Except Failure (String × Machine))) :
    (results.mergeSort precedes).Pairwise (precedes · ·) :=
  List.pairwise_mergeSort precedes_trans precedes_total results

theorem sorted_successes (sorted : results.Pairwise (precedes · ·)) :
    (successes results).Pairwise (·.1 ≤ ·.1) := by
  refine List.Pairwise.filterMap _ ?_ sorted
  rintro (_ | _) (_ | _) below _ ⟨⟩ _ ⟨⟩
  exact precedes_ok.1 below

theorem eq_successes_append_failures (sorted : results.Pairwise (precedes · ·)) :
    results = (successes results).map .ok ++ (failures results).map .error := by
  induction sorted with
  | nil => rfl
  | @cons result results first _ ih =>
    cases result with
    | ok r => rw [successes_cons_ok, failures_cons_ok, List.map_cons, List.cons_append, ← ih]
    | error e =>
      -- No success stands behind a failure.
      have none_ok : successes results = [] := List.eq_nil_iff_forall_not_mem.2 fun r mem =>
        absurd (first _ (mem_successes.1 mem)) (by simp [precedes, compareResults])
      rw [none_ok] at ih
      rw [successes_cons_error, failures_cons_error, none_ok, List.map_cons]
      exact congrArg (.error e :: ·) ih

/-- A stable sort keeps the failures as they come, since none of them is told from another. -/
theorem failures_mergeSort (results : List (Except Failure (String × Machine))) :
    failures (results.mergeSort precedes) = failures results := by
  have level : ((failures results).map (.error : _ → Except Failure (String × Machine))).Pairwise
      (precedes · ·) := List.pairwise_map.2 (List.pairwise_of_forall fun _ _ => rfl)
  have kept := List.sublist_mergeSort precedes_trans precedes_total level map_error_failures_sublist
  have sub := failures_sublist kept
  rw [failures_map_error] at sub
  have many := (failures_perm (List.mergeSort_perm results precedes)).length_eq
  exact (sub.eq_of_length many.symm).symm

/-! ## The results of a directory -/

variable {files : Access} {directory : String} {entries : List (Except Fault Entry)}

def described (entries : List (Except Fault Entry)) : List Entry :=
  (successes entries).filter isDescription

def resultOf (files : Access) (directory : String) (e : Entry) :
    Except Failure (String × Machine) :=
  (loadFile files (Files.join directory e.name)).map (Files.join directory e.name, ·)

def entryResults (files : Access) (directory : String) (entries : List (Except Fault Entry)) :
    List (Except Failure (String × Machine)) :=
  entries.filterMap (loadEntry files directory)

theorem isDescription_iff {e : Entry} : isDescription e ↔
    e.isDirectory = false ∧ ∃ stem ≠ "", e.name = stem ++ ".tm" := by
  rw [isDescription, Bool.and_eq_true, Bool.not_eq_true', beq_iff_eq, Files.extension?_eq_some_iff]
  simp only [fileExtension, String.append_assoc]
  exact and_congr_right fun _ => and_iff_right (by decide)

theorem loadFile_eq_ok_iff {path : String} {m : Machine} : loadFile files path = .ok m ↔
    ∃ bytes text, files.read path = .ok bytes ∧ String.fromUTF8? bytes = some text ∧
      ofText text = .ok m := by
  rw [loadFile, Access.readText]
  cases files.read path with
  | error => simp
  | ok bytes =>
    cases decoded : String.fromUTF8? bytes with
    | none => simp [decoded]
    | some text =>
      simp only [load, decoded, Except.ok.injEq, Option.some.injEq, exists_and_left,
        exists_eq_left']
      cases ofText text <;> simp

theorem resultOf_eq_ok_iff {e : Entry} {r : String × Machine} :
    resultOf files directory e = .ok r ↔
      r.1 = Files.join directory e.name ∧ loadFile files r.1 = .ok r.2 := by
  rw [resultOf]
  constructor
  · intro result
    cases loaded : loadFile files (Files.join directory e.name) with
    | error => rw [loaded] at result; cases result
    | ok m =>
      rw [loaded] at result
      cases result
      exact ⟨rfl, loaded⟩
  · rintro ⟨path, loaded⟩
    rw [← path, loaded]
    rfl

theorem resultOf_eq_error_iff {e : Entry} {failure : Failure} :
    resultOf files directory e = .error failure ↔
      loadFile files (Files.join directory e.name) = .error failure := by
  rw [resultOf]
  cases loadFile files (Files.join directory e.name) <;> simp [Except.map]

theorem entryResults_perm (files : Access) (directory : String)
    (entries : List (Except Fault Entry)) :
    (entryResults files directory entries).Perm
      ((described entries).map (resultOf files directory) ++
        (failures entries).map fun fault => .error (.unreadableEntry fault)) := by
  induction entries with
  | nil => rfl
  | cons entry entries ih =>
    cases entry with
    | error fault => exact (ih.cons _).trans List.perm_middle.symm
    | ok e =>
      by_cases loads : isDescription e
      · have first : entryResults files directory (.ok e :: entries) =
            resultOf files directory e :: entryResults files directory entries := by
          simp [entryResults, loadEntry, loads, resultOf]
        have more : described (.ok e :: entries) = e :: described entries := by
          simp [described, loads]
        rw [first, more]
        exact ih.cons _
      · have skipped : entryResults files directory (.ok e :: entries) =
            entryResults files directory entries := by
          simp [entryResults, loadEntry, loads]
        have same : described (.ok e :: entries) = described entries := by
          simp [described, loads]
        rw [skipped, same]
        exact ih

theorem loadFile_of_mem_successes {r : String × Machine}
    (mem : r ∈ successes (entryResults files directory entries)) :
    loadFile files r.1 = .ok r.2 := by
  have mem := (entryResults_perm files directory entries).mem_iff.1 (mem_successes.1 mem)
  obtain mem | mem := List.mem_append.1 mem
  · obtain ⟨e, -, result⟩ := List.mem_map.1 mem
    exact (resultOf_eq_ok_iff.1 result).2
  · obtain ⟨fault, -, result⟩ := List.mem_map.1 mem
    cases result

theorem paths_nodup (distinct : ((described entries).map (·.name)).Nodup) :
    ((successes (entryResults files directory entries)).map (·.1)).Nodup := by
  have perm := successes_perm (entryResults_perm files directory entries)
  have unlisted : successes ((failures entries).map fun fault =>
      (.error (.unreadableEntry fault) : Except Failure (String × Machine))) = [] := by
    rw [← Function.comp_def, ← List.map_map, successes_map_error]
  rw [successes_append, unlisted, List.append_nil] at perm
  rw [(perm.map _).nodup_iff, successes, List.filterMap_map, List.nodup_iff_pairwise_ne,
    List.pairwise_map]
  refine List.Pairwise.filterMap _ (fun e e' differ r result r' result' => ?_)
    (List.pairwise_map.1 distinct)
  have path := (resultOf_eq_ok_iff.1 (toOption_eq_some_iff.1 result)).1
  have path' := (resultOf_eq_ok_iff.1 (toOption_eq_some_iff.1 result')).1
  rw [path, path']
  exact (Files.join_injective directory).ne differ

theorem sorted_mergeSort_paths (rs : List (String × Machine)) :
    (rs.mergeSort (·.1 ≤ ·.1)).Pairwise (·.1 ≤ ·.1) := by
  refine (List.pairwise_mergeSort (fun a b c below above => ?_) (fun a b => ?_) rs).imp
    of_decide_eq_true
  · exact decide_eq_true ((of_decide_eq_true below).trans (of_decide_eq_true above))
  · simpa using le_total a.1 b.1

theorem eq_of_perm_of_sorted {rs rs' : List (String × Machine)}
    (loaded : ∀ r ∈ rs, loadFile files r.1 = .ok r.2) (sorted : rs.Pairwise (·.1 ≤ ·.1))
    (sorted' : rs'.Pairwise (·.1 ≤ ·.1)) (perm : rs.Perm rs') : rs = rs' := by
  refine perm.eq_of_pairwise (fun r r' mem mem' below above => ?_) sorted sorted'
  have path := le_antisymm below above
  have machine := (loaded r mem).symm.trans (path ▸ loaded r' (perm.mem_iff.2 mem'))
  exact Prod.ext path (Except.ok.inj machine)

theorem loadDirectory_eq_mergeSort (listed : files.list directory = .ok entries) :
    loadDirectory files directory = (entryResults files directory entries).mergeSort precedes := by
  have sorted := sorted_mergeSort (entryResults files directory entries)
  have perm := successes_perm (List.mergeSort_perm (entryResults files directory entries) precedes)
  have byPath : (successes (entryResults files directory entries)).mergeSort (·.1 ≤ ·.1) =
      successes ((entryResults files directory entries).mergeSort precedes) := by
    have perm' := List.mergeSort_perm (successes (entryResults files directory entries)) (·.1 ≤ ·.1)
    exact eq_of_perm_of_sorted (fun r mem => loadFile_of_mem_successes (perm'.mem_iff.1 mem))
      (sorted_mergeSort_paths _) (sorted_successes sorted) (perm'.trans perm.symm)
  have parts : loadDirectory files directory =
      ((successes (entryResults files directory entries)).mergeSort (·.1 ≤ ·.1)).map .ok ++
        (failures (entryResults files directory entries)).map .error := by
    simp only [loadDirectory, listed, successes, failures, entryResults]
    congr 3
    · exact List.filterMap_congr fun result _ => by cases result <;> rfl
    · funext result
      cases result <;> rfl
  rw [eq_successes_append_failures sorted, failures_mergeSort, ← byPath, parts]

theorem entryResults_congr {files' : Access} (read : files'.read = files.read)
    (entries : List (Except Fault Entry)) :
    entryResults files' directory entries = entryResults files directory entries := by
  have entry : loadEntry files' directory = loadEntry files directory := by
    have (path : String) : loadFile files' path = loadFile files path := by
      simp only [loadFile, Access.readText, read]
    funext e
    cases e <;> simp only [loadEntry, this]
  rw [entryResults, entryResults, entry]

theorem loadDirectory_perm (listed : files.list directory = .ok entries) :
    (loadDirectory files directory).Perm (entryResults files directory entries) := by
  rw [loadDirectory_eq_mergeSort listed]
  exact List.mergeSort_perm _ _

theorem sorted_loadDirectory (listed : files.list directory = .ok entries) :
    (loadDirectory files directory).Pairwise (precedes · ·) := by
  rw [loadDirectory_eq_mergeSort listed]
  exact sorted_mergeSort _

theorem strictly_sorted_loadDirectory (listed : files.list directory = .ok entries)
    (distinct : ((described entries).map (·.name)).Nodup) :
    (successes (loadDirectory files directory)).Pairwise (·.1 < ·.1) := by
  have perm := (successes_perm (loadDirectory_perm listed)).map (·.1)
  have differ := perm.nodup_iff.2 (paths_nodup distinct)
  rw [List.nodup_iff_pairwise_ne, List.pairwise_map] at differ
  exact (sorted_successes (sorted_loadDirectory listed)).imp₂ (fun _ _ => lt_of_le_of_ne) differ

theorem loadDirectory_perm_of_listing {files' : Access} {entries' : List (Except Fault Entry)}
    (listed : files.list directory = .ok entries) (read : files'.read = files.read)
    (listed' : files'.list directory = .ok entries') (perm : entries'.Perm entries) :
    (loadDirectory files' directory).Perm (loadDirectory files directory) := by
  have results := loadDirectory_perm listed'
  rw [entryResults_congr read] at results
  exact results.trans ((perm.filterMap _).trans (loadDirectory_perm listed).symm)

theorem successes_eq_of_listing {files' : Access} {entries' : List (Except Fault Entry)}
    (listed : files.list directory = .ok entries) (read : files'.read = files.read)
    (listed' : files'.list directory = .ok entries') (perm : entries'.Perm entries) :
    successes (loadDirectory files' directory) = successes (loadDirectory files directory) := by
  have same := successes_perm (loadDirectory_perm_of_listing listed read listed' perm)
  have loaded (r) (mem : r ∈ successes (loadDirectory files' directory)) :
      loadFile files' r.1 = .ok r.2 :=
    loadFile_of_mem_successes ((successes_perm (loadDirectory_perm listed')).mem_iff.1 mem)
  exact eq_of_perm_of_sorted loaded (sorted_successes (sorted_loadDirectory listed'))
    (sorted_successes (sorted_loadDirectory listed)) same

/-- What is loaded does not depend on how the directory is listed, and the failures come in another
order at most. -/
theorem directory_reported_once (files : Access) (directory : String) :
    (∀ fault, files.list directory = .error fault →
      loadDirectory files directory = [.error (.unreadableDirectory directory fault)]) ∧
    (∀ e, isDescription e ↔ e.isDirectory = false ∧ ∃ stem ≠ "", e.name = stem ++ ".tm") ∧
    (∀ e path m, resultOf files directory e = .ok (path, m) ↔
      path = Files.join directory e.name ∧ ∃ bytes text, files.read path = .ok bytes ∧
        String.fromUTF8? bytes = some text ∧ ofText text = .ok m) ∧
    (∀ e failure, resultOf files directory e = .error failure ↔
      loadFile files (Files.join directory e.name) = .error failure) ∧
    (∀ a b, Files.join directory a < Files.join directory b ↔ a < b) ∧
    Std.TransCmp compareResults ∧
    ∀ entries, files.list directory = .ok entries →
      (loadDirectory files directory).Perm
        ((described entries).map (resultOf files directory) ++
          (failures entries).map fun fault => .error (.unreadableEntry fault)) ∧
      loadDirectory files directory =
        (entries.filterMap (loadEntry files directory)).mergeSort
          (fun a b => (compareResults a b).isLE) ∧
      loadDirectory files directory = (successes (loadDirectory files directory)).map .ok ++
        (failures (loadDirectory files directory)).map .error ∧
      (((described entries).map (·.name)).Nodup →
        (successes (loadDirectory files directory)).Pairwise (·.1 < ·.1)) ∧
      ∀ files' entries', files'.read = files.read → files'.list directory = .ok entries' →
        entries'.Perm entries →
          successes (loadDirectory files' directory) = successes (loadDirectory files directory) ∧
          (failures (loadDirectory files' directory)).Perm
            (failures (loadDirectory files directory)) := by
  refine ⟨fun fault unlisted => by rw [loadDirectory, unlisted], fun e => isDescription_iff,
    fun e path m => by rw [resultOf_eq_ok_iff, loadFile_eq_ok_iff],
    fun e failure => resultOf_eq_error_iff, fun a b => Files.join_lt_join_iff, inferInstance,
    fun entries listed => ?_⟩
  exact ⟨(loadDirectory_perm listed).trans (entryResults_perm files directory entries),
    loadDirectory_eq_mergeSort listed, eq_successes_append_failures (sorted_loadDirectory listed),
    strictly_sorted_loadDirectory listed, fun files' entries' read listed' perm =>
      ⟨successes_eq_of_listing listed read listed' perm,
        failures_perm (loadDirectory_perm_of_listing listed read listed' perm)⟩⟩

def shelf (entries : List (Except Fault Entry)) : Access where
  read path :=
    match [("d/a.tm", "A\ninit A\nA:\n".toByteArray), ("d/b.tm", "B\ninit B\nB:\n".toByteArray),
      ("d/.tm", "A\ninit A\nA:\n".toByteArray), ("d/c.TM", "A\ninit A\nA:\n".toByteArray),
      ("d/e.tm", ⟨#[0xff]⟩), ("d/g.tm", "".toByteArray)].lookup path with
    | none => .error .notFound
    | some bytes => .ok bytes
  list path := if path = "d" then .ok entries else .error .notFound

theorem directory_reported_once_shelf :
    ∃ entries : List (Except Fault Entry),
      (successes (loadDirectory (shelf entries) "d")).map (·.1) = ["d/a.tm", "d/b.tm"] ∧
      ((failures (loadDirectory (shelf entries) "d")).map Failure.message).Perm
        ["File error: Failed to read file d/e.tm: stream did not contain valid UTF-8",
          "Description parsing error: line 1: expected the header line declaring all states"] ∧
      successes (loadDirectory (shelf entries.reverse) "d") =
        successes (loadDirectory (shelf entries) "d") ∧
      (failures (loadDirectory (shelf entries.reverse) "d")).Perm
        (failures (loadDirectory (shelf entries) "d")) ∧
      loadDirectory (shelf entries) "m" = [.error (.unreadableDirectory "m" .notFound)] := by
  let entries : List (Except Fault Entry) := [.ok ⟨"b.tm", false⟩, .ok ⟨".tm", false⟩,
    .ok ⟨"c.TM", false⟩, .ok ⟨"a.tm", false⟩, .ok ⟨"e.tm", false⟩, .ok ⟨"f.tm", true⟩,
    .ok ⟨"g.tm", false⟩]
  obtain ⟨-, -, -, -, -, -, reported⟩ := directory_reported_once (shelf entries) "d"
  obtain ⟨each, -, -, increasing, invariant⟩ := reported entries rfl
  obtain ⟨sameMachines, sameFailures⟩ :=
    invariant (shelf entries.reverse) entries.reverse rfl rfl entries.reverse_perm
  have strict := List.pairwise_map.2 (increasing (by decide +kernel))
  have paths : ((successes (loadDirectory (shelf entries) "d")).map (·.1)).Perm
      ["d/a.tm", "d/b.tm"] :=
    ((successes_perm each).map (·.1)).trans (.trans (.of_eq (by decide +kernel)) (.swap ..))
  have messages := (failures_perm each).map Failure.message
  refine ⟨entries, paths.eq_of_pairwise ?_ strict (by decide +kernel),
    messages.trans (.of_eq (by decide +kernel)), sameMachines, sameFailures,
    (directory_reported_once (shelf entries) "m").1 .notFound rfl⟩
  exact fun _ _ _ _ below above => absurd above below.asymm

end Machine

end OneTape
