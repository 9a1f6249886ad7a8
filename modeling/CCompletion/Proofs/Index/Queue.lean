import CCompletion.Index.Queue
import CCompletion.Proofs.Index.Table
import Mathlib.Data.List.Induction

/-!
# Histories of the scan queue

A history is a list of events: scans are requested, and the running scan is told the paths below its
root and the contents of its files. Whatever the history, it splits into whole scans that were told
their answers one after the other, in the order of the requests, and the visible table is the one
that the last whole scan built. As long as answers keep coming, failures among them or not, every
request is answered.
-/

namespace CCompletion

/-! ## Finished scans -/

/-- The files among those asked for that could be read, with their contents. -/
def readableFiles (files : List (Text × Option Text)) : List (Text × Text) :=
  files.filterMap fun file => file.2.map fun content => (file.1, content)

/-- A scan that was told all it asked for: the paths below its root, then one content for each path. -/
@[ext]
structure FinishedScan where
  root : Text
  paths? : Option (List Text)
  contents : List (Option Text)
  length_contents : contents.length = (paths?.getD []).length

namespace FinishedScan

/-- The listed paths in the order in which they are read. -/
def order (s : FinishedScan) : List Text := Text.sorted (s.paths?.getD [])

def readable (s : FinishedScan) : List (Text × Text) := readableFiles (s.order.zip s.contents)

/-- The table of all that the readable files name, built from nothing. -/
def table (s : FinishedScan) : SymbolTable := SymbolTable.harvestAll { root := some s.root } s.readable

def summary (s : FinishedScan) : ScanSummary where
  root := s.root
  filesVisited := (s.paths?.getD []).length
  filesSkipped := s.contents.countP (·.isNone)
  functions := s.table.functions.length
  headers := s.table.headers.length
  types := s.table.types.length

/-- What the scan was told, in order. -/
def answers (s : FinishedScan) : List ScanEvent := .listed s.paths? :: s.contents.map .read

end FinishedScan

/-- The table that the last of some scans built; the empty one before the first. -/
def lastTable (scans : List FinishedScan) : SymbolTable := (scans.getLast?.map (·.table)).getD {}

/-! ## Drafts -/

namespace Draft

/-- Takes in files one after the other. -/
def feed (d : Draft) (files : List (Text × Option Text)) : Draft :=
  files.foldl (fun d file => d.addFile file.1 file.2) d

theorem feed_append_singleton (d : Draft) (files : List (Text × Option Text)) (path : Text)
    (content? : Option Text) :
    d.feed (files ++ [(path, content?)]) = (d.feed files).addFile path content? := by
  simp only [feed, List.foldl_append, List.foldl_cons, List.foldl_nil]

/-- What no file changes stays as it was. -/
theorem feed_eq {α : Type} {field : Draft → α}
    (hfield : ∀ d path content?, field (d.addFile path content?) = field d) (d : Draft)
    (files : List (Text × Option Text)) : field (d.feed files) = field d := by
  induction files generalizing d with
  | nil => rfl
  | cons file rest ih =>
    rw [feed, List.foldl_cons]
    exact (ih _).trans (hfield d file.1 file.2)

theorem root_feed (d : Draft) (files : List (Text × Option Text)) : (d.feed files).root = d.root :=
  feed_eq (fun _ _ content? => by cases content? <;> rfl) d files

theorem listed_feed (d : Draft) (files : List (Text × Option Text)) :
    (d.feed files).listed = d.listed :=
  feed_eq (fun _ _ content? => by cases content? <;> rfl) d files

theorem skipped_feed (d : Draft) (files : List (Text × Option Text)) :
    (d.feed files).skipped = d.skipped + (files.map (·.2)).countP (·.isNone) := by
  induction files generalizing d with
  | nil => rfl
  | cons file rest ih =>
    rw [feed, List.foldl_cons]
    refine (ih _).trans ?_
    cases h : file.2 with
    | none => simp only [addFile, List.map_cons, h, List.countP_cons, Option.isNone_none, if_true]; omega
    | some content => simp [addFile, h]

theorem table_feed (d : Draft) (files : List (Text × Option Text)) :
    (d.feed files).table = d.table.harvestAll (readableFiles files) := by
  induction files generalizing d with
  | nil => rfl
  | cons file rest ih =>
    rw [feed, List.foldl_cons]
    refine (ih _).trans ?_
    cases h : file.2 <;> simp [addFile, readableFiles, SymbolTable.harvestAll, h]

end Draft

namespace FinishedScan

/-- The draft with which a scan ends. -/
def draft (s : FinishedScan) : Draft :=
  (Draft.start s.root (s.paths?.getD [])).feed (s.order.zip s.contents)

theorem length_order (s : FinishedScan) : s.order.length = s.contents.length := by
  rw [order, Text.sorted, List.length_mergeSort, s.length_contents]

theorem table_draft (s : FinishedScan) : s.draft.table = s.table := Draft.table_feed _ _

theorem summary_draft (s : FinishedScan) : s.draft.summary = s.summary := by
  have hskipped : s.draft.skipped = s.contents.countP (·.isNone) := by
    rw [draft, Draft.skipped_feed, List.map_snd_zip (Nat.le_of_eq s.length_order.symm)]
    exact Nat.zero_add _
  have hroot : s.draft.root = s.root := Draft.root_feed _ _
  have hlisted : s.draft.listed = (s.paths?.getD []).length := Draft.listed_feed _ _
  simp only [Draft.summary, summary, hskipped, hroot, hlisted, s.table_draft]

end FinishedScan

/-! ## What a history asks and tells -/

/-- The root that an event requests a scan of. -/
def ScanEvent.requestedRoot? : ScanEvent → Option Text
  | .requested root => some root
  | _ => none

def requestedRoots (events : List ScanEvent) : List Text := events.filterMap ScanEvent.requestedRoot?

namespace ScanStage

def root : ScanStage → Text
  | .listing root => root
  | .reading d _ _ => d.root

/-- What a scan under way has been told: nothing before its listing, and then a content for each file that
its draft has taken in. -/
inductive Told : ScanStage → List ScanEvent → Prop
  | listing (root : Text) : Told (.listing root) []
  | reading (root : Text) (paths? : Option (List Text)) (next : Text) (rest done : List Text)
      (contents : List (Option Text)) (order : Text.sorted (paths?.getD []) = done ++ next :: rest)
      (fed : done.length = contents.length) :
      Told (.reading ((Draft.start root (paths?.getD [])).feed (done.zip contents)) next rest)
        (.listed paths? :: contents.map .read)

end ScanStage

namespace ScanQueue

/-- Does the running scan wait for this event? -/
def awaits (q : ScanQueue) (event : ScanEvent) : Bool :=
  match event, q.running with
  | .listed _, some (.listing _) => true
  | .read _, some (.reading _ _ _) => true
  | _, _ => false

/-- The events of a history that a running scan was waiting for. -/
def told (q : ScanQueue) : List ScanEvent → List ScanEvent
  | [] => []
  | event :: rest =>
    if q.awaits event then event :: (q.step event).told rest else (q.step event).told rest

/-- What the scan under way has been told; a queue with none under way has none waiting either. -/
def Underway (q : ScanQueue) (answers : List ScanEvent) : Prop :=
  match q.running with
  | none => answers = [] ∧ q.waiting = []
  | some stage => stage.Told answers

/-- A queue serves a history when `scans` have finished in it. -/
structure Serves (q : ScanQueue) (events : List ScanEvent) (scans : List FinishedScan) : Prop where
  /-- A reader sees the whole table of the last finished scan. -/
  visible_eq : q.visible = lastTable scans
  /-- Each finished scan was answered with its own summary. -/
  answers_eq : q.answers = scans.map FinishedScan.summary
  /-- The scans that have finished, the one under way and those that wait are the requested ones, in order. -/
  requests_eq : requestedRoots events =
    scans.map FinishedScan.root ++ (q.running.toList.map ScanStage.root ++ q.waiting)
  /-- Each scan was told all its answers before the next one was told anything. -/
  told_eq : ∃ underway, ({} : ScanQueue).told events = scans.flatMap FinishedScan.answers ++ underway ∧
    q.Underway underway

theorem run_append (q : ScanQueue) (es fs : List ScanEvent) : q.run (es ++ fs) = (q.run es).run fs :=
  List.foldl_append

theorem told_append_singleton (q : ScanQueue) (events : List ScanEvent) (event : ScanEvent) :
    q.told (events ++ [event]) =
      q.told events ++ if (q.run events).awaits event then [event] else [] := by
  induction events generalizing q with
  | nil => rfl
  | cons e rest ih =>
    rw [List.cons_append, told, told, ih]
    split <;> rfl

theorem visible_beginNext (q : ScanQueue) : q.beginNext.visible = q.visible := by
  unfold beginNext
  split <;> rfl

theorem answers_beginNext (q : ScanQueue) : q.beginNext.answers = q.answers := by
  unfold beginNext
  split <;> rfl

/-- The scans that wait are still those to come once the first of them has begun. -/
theorem pending_beginNext (q : ScanQueue) :
    q.beginNext.running.toList.map ScanStage.root ++ q.beginNext.waiting = q.waiting := by
  unfold beginNext
  split <;> simp_all [ScanStage.root]

theorem underway_beginNext (q : ScanQueue) : q.beginNext.Underway [] := by
  unfold beginNext
  split
  · exact ⟨rfl, ‹_›⟩
  · exact .listing _

/-! ## One step -/

/-- A scan that has been told some contents either goes on to its next file or finishes. -/
theorem serves_continueWith {q : ScanQueue} {events : List ScanEvent} {scans : List FinishedScan}
    {root : Text} {paths? : Option (List Text)} (contents : List (Option Text)) (done : List Text)
    {rest : List Text}
    (hvisible : q.visible = lastTable scans)
    (hanswers : q.answers = scans.map FinishedScan.summary)
    (hrequests : requestedRoots events = scans.map FinishedScan.root ++ root :: q.waiting)
    (htold : ({} : ScanQueue).told events =
      scans.flatMap FinishedScan.answers ++ .listed paths? :: contents.map .read)
    (horder : Text.sorted (paths?.getD []) = done ++ rest) (hfed : done.length = contents.length) :
    ∃ more, (q.continueWith ((Draft.start root (paths?.getD [])).feed (done.zip contents)) rest).Serves
      events (scans ++ more) := by
  cases rest with
  | cons next rest =>
    refine ⟨[], ?_⟩
    rw [List.append_nil]
    have hroot : ((Draft.start root (paths?.getD [])).feed (done.zip contents)).root = root :=
      Draft.root_feed _ _
    refine ⟨hvisible, hanswers, ?_, _, htold, .reading root paths? next rest done contents horder hfed⟩
    simpa [continueWith, ScanStage.root, hroot] using hrequests
  | nil =>
    -- All listed paths have been read, so the scan is a finished one.
    rw [List.append_nil] at horder
    have hlength : contents.length = (paths?.getD []).length := by
      rw [← hfed, ← horder, Text.sorted, List.length_mergeSort]
    let s : FinishedScan := ⟨root, paths?, contents, hlength⟩
    have hdraft : (Draft.start root (paths?.getD [])).feed (done.zip contents) = s.draft := by
      rw [FinishedScan.draft, FinishedScan.order, horder]
    refine ⟨[s], ?_, ?_, ?_, [], ?_, ?_⟩
    · rw [continueWith, finish, visible_beginNext, hdraft, s.table_draft]
      simp [lastTable]
    · rw [continueWith, finish, answers_beginNext, hdraft, s.summary_draft, hanswers, List.map_append]
      rfl
    · rw [continueWith, finish, pending_beginNext, hrequests, List.map_append, List.append_assoc]
      rfl
    · rw [htold, List.flatMap_append, List.append_nil]
      simp [s, FinishedScan.answers]
    · rw [continueWith, finish]
      exact underway_beginNext _

theorem requestedRoots_append_singleton (events : List ScanEvent) (event : ScanEvent) :
    requestedRoots (events ++ [event]) = requestedRoots events ++ event.requestedRoot?.toList := by
  rw [requestedRoots, List.filterMap_append]
  cases h : event.requestedRoot? <;> simp [h, requestedRoots]

/-- An event that is no request and that no scan waits for changes nothing. -/
theorem step_eq_self {q : ScanQueue} {event : ScanEvent} (hevent : event.requestedRoot? = none)
    (hawaits : q.awaits event = false) : q.step event = q := by
  unfold step
  split <;> simp_all [awaits, ScanEvent.requestedRoot?]

section Step

variable {events : List ScanEvent} {scans : List FinishedScan} {q : ScanQueue}

theorem Serves.unawaited {event : ScanEvent} (hq : ({} : ScanQueue).run events = q)
    (h : q.Serves events scans) (hevent : event.requestedRoot? = none)
    (hawaits : q.awaits event = false) : (q.step event).Serves (events ++ [event]) scans := by
  obtain ⟨underway, htold, hunderway⟩ := h.told_eq
  rw [step_eq_self hevent hawaits]
  refine ⟨h.visible_eq, h.answers_eq, ?_, underway, ?_, hunderway⟩
  · rw [requestedRoots_append_singleton, hevent, h.requests_eq, Option.toList_none, List.append_nil]
  · rw [told_append_singleton, hq, hawaits, htold]
    simp only [Bool.false_eq_true, if_false, List.append_nil]

/-- A request begins at once where no scan is under way, and waits behind the others elsewhere. -/
theorem Serves.requested (h : q.Serves events scans) (root : Text) :
    (q.step (.requested root)).Serves (events ++ [.requested root]) scans := by
  obtain ⟨underway, htold, hunderway⟩ := h.told_eq
  have htold' : ({} : ScanQueue).told (events ++ [.requested root]) =
      scans.flatMap FinishedScan.answers ++ underway := by
    rw [told_append_singleton, htold]
    simp [awaits]
  have hrequests : requestedRoots (events ++ [.requested root]) =
      scans.map FinishedScan.root ++ (q.running.toList.map ScanStage.root ++ (q.waiting ++ [root])) := by
    rw [requestedRoots_append_singleton, h.requests_eq, List.append_assoc, List.append_assoc]
    rfl
  cases hrunning : q.running with
  | none =>
    simp only [Underway, hrunning] at hunderway
    obtain ⟨rfl, hwaiting⟩ := hunderway
    have hstep : q.step (.requested root) = { q with waiting := q.waiting ++ [root] }.beginNext := by
      simp only [ScanQueue.step, hrunning]
    rw [hstep]
    refine ⟨?_, ?_, ?_, [], htold', underway_beginNext _⟩
    · rw [visible_beginNext, h.visible_eq]
    · rw [answers_beginNext, h.answers_eq]
    · rw [pending_beginNext, hrequests, hrunning]
      rfl
  | some stage =>
    have hstep : q.step (.requested root) = { q with waiting := q.waiting ++ [root] } := by
      simp only [ScanQueue.step, hrunning]
    rw [hstep]
    refine ⟨h.visible_eq, h.answers_eq, hrequests, underway, htold', ?_⟩
    simpa only [Underway, hrunning] using hunderway

/-- The listing of the scan under way is read file by file, or ends the scan where it names no file. -/
theorem Serves.listed {root : Text} (hq : ({} : ScanQueue).run events = q) (h : q.Serves events scans)
    (hrunning : q.running = some (.listing root)) (paths? : Option (List Text)) :
    ∃ more, (q.step (.listed paths?)).Serves (events ++ [.listed paths?]) (scans ++ more) := by
  obtain ⟨underway, htold, hunderway⟩ := h.told_eq
  have hawaits : q.awaits (.listed paths?) = true := by simp [awaits, hrunning]
  simp only [Underway, hrunning] at hunderway
  cases hunderway
  simp only [step, hrunning]
  refine serves_continueWith [] [] h.visible_eq h.answers_eq ?_ ?_ rfl rfl
  · rw [requestedRoots_append_singleton, h.requests_eq, hrunning, List.append_assoc]
    simp [ScanEvent.requestedRoot?, ScanStage.root, warn]
  · rw [told_append_singleton, hq, hawaits, htold, if_pos rfl, List.append_nil]
    rfl

/-- A content told to the scan under way goes into its draft, and ends the scan where it is the last. -/
theorem Serves.read {d : Draft} {next : Text} {rest : List Text}
    (hq : ({} : ScanQueue).run events = q) (h : q.Serves events scans)
    (hrunning : q.running = some (.reading d next rest)) (content? : Option Text) :
    ∃ more, (q.step (.read content?)).Serves (events ++ [.read content?]) (scans ++ more) := by
  obtain ⟨underway, htold, hunderway⟩ := h.told_eq
  have hawaits : q.awaits (.read content?) = true := by simp [awaits, hrunning]
  simp only [Underway, hrunning] at hunderway
  cases hunderway with
  | reading root paths? _ _ done contents horder hfed =>
    have hdraft : ((Draft.start root (paths?.getD [])).feed (done.zip contents)).addFile next content? =
        (Draft.start root (paths?.getD [])).feed ((done ++ [next]).zip (contents ++ [content?])) := by
      rw [← Draft.feed_append_singleton, List.zip_append hfed]
      rfl
    simp only [step, hrunning, hdraft]
    refine serves_continueWith (contents ++ [content?]) (done ++ [next]) h.visible_eq h.answers_eq
      ?_ ?_ ?_ ?_
    · rw [requestedRoots_append_singleton, h.requests_eq, hrunning, List.append_assoc]
      simp [ScanEvent.requestedRoot?, ScanStage.root, warn, Draft.root_feed, Draft.start]
    · rw [told_append_singleton, hq, hawaits, htold, if_pos rfl]
      simp
    · rw [horder, List.append_assoc]
      rfl
    · rw [List.length_append, List.length_append, hfed]
      rfl

/-- Whatever happens, the history stays served, and no scan that has finished is taken back. -/
theorem Serves.step (hq : ({} : ScanQueue).run events = q) (h : q.Serves events scans)
    (event : ScanEvent) :
    ∃ more, (q.step event).Serves (events ++ [event]) (scans ++ more) := by
  have stays (hevent : event.requestedRoot? = none) (hawaits : q.awaits event = false) :
      ∃ more, (q.step event).Serves (events ++ [event]) (scans ++ more) :=
    ⟨[], (List.append_nil scans).symm ▸ h.unawaited hq hevent hawaits⟩
  -- Each stage of a scan waits for one kind of answer; the other answers pass it by.
  match event, hrunning : q.running with
  | .requested root, _ => exact ⟨[], (List.append_nil scans).symm ▸ h.requested root⟩
  | .listed paths?, some (.listing root) => exact h.listed hq hrunning paths?
  | .read content?, some (.reading d next rest) => exact h.read hq hrunning content?
  | .listed _, none => exact stays rfl (by simp [awaits, hrunning])
  | .listed _, some (.reading _ _ _) => exact stays rfl (by simp [awaits, hrunning])
  | .read _, none => exact stays rfl (by simp [awaits, hrunning])
  | .read _, some (.listing _) => exact stays rfl (by simp [awaits, hrunning])

end Step

/-! ## Whole histories -/

theorem Serves.start : ({} : ScanQueue).Serves [] [] := ⟨rfl, rfl, rfl, [], rfl, rfl, rfl⟩

theorem Serves.length_answers {q : ScanQueue} {events : List ScanEvent} {scans : List FinishedScan}
    (h : q.Serves events scans) : q.answers.length = scans.length := by
  rw [h.answers_eq, List.length_map]

theorem Serves.take_length_answers {q : ScanQueue} {events : List ScanEvent}
    {scans : List FinishedScan} (h : q.Serves events scans) :
    scans.take q.answers.length = scans := by
  rw [h.length_answers, List.take_length]

/-- One list of scans serves a history at each of its moments: so many of them as were answered by then. -/
theorem exists_serves (events : List ScanEvent) :
    ∃ scans, (({} : ScanQueue).run events).Serves events scans ∧
      ∀ n, (({} : ScanQueue).run (events.take n)).Serves (events.take n)
        (scans.take (({} : ScanQueue).run (events.take n)).answers.length) := by
  induction events using List.reverseRecOn with
  | nil => exact ⟨[], .start, fun n => by rw [List.take_nil]; exact Serves.start⟩
  | append_singleton events event ih =>
    obtain ⟨scans, hserves, hmoments⟩ := ih
    obtain ⟨more, hmore⟩ := hserves.step rfl event
    have hrun : ({} : ScanQueue).run (events ++ [event]) = (({} : ScanQueue).run events).step event := by
      rw [run_append]; rfl
    refine ⟨scans ++ more, hrun ▸ hmore, fun n => ?_⟩
    by_cases hn : n ≤ events.length
    · have hseen := hmoments n
      -- The scans added by the last event come after all that this moment looks at.
      have hcount : (({} : ScanQueue).run (events.take n)).answers.length ≤ scans.length := by
        rw [hseen.length_answers]
        exact List.length_take_le' _ _
      rw [List.take_append_of_le_length hn, List.take_append_of_le_length hcount]
      exact hseen
    · rw [List.take_of_length_le (by rw [List.length_append, List.length_singleton]; omega), hrun,
        hmore.take_length_answers]
      exact hmore

/-- What a scan under way has been told does not finish it. -/
theorem Underway.ne_answers_append {q : ScanQueue} {underway : List ScanEvent} (h : q.Underway underway)
    (s : FinishedScan) (later : List ScanEvent) : underway ≠ s.answers ++ later := by
  rintro rfl
  cases hrunning : q.running with
  | none =>
    simp only [Underway, hrunning] at h
    cases h.1
  | some stage =>
    simp only [Underway, hrunning] at h
    generalize hanswers : s.answers ++ later = answers at h
    cases h with
    | listing root => cases hanswers
    | reading root paths? next rest done contents horder hfed =>
      obtain ⟨hlisted, hcontents⟩ := List.cons.inj hanswers
      obtain rfl : s.paths? = paths? := ScanEvent.listed.inj hlisted
      have hlength : (s.contents.map ScanEvent.read ++ later).length = (contents.map ScanEvent.read).length :=
        congrArg List.length hcontents
      have hpaths := congrArg List.length horder
      rw [Text.length_sorted, ← s.length_contents, List.length_append, List.length_cons] at hpaths
      rw [List.length_append, List.length_map, List.length_map] at hlength
      omega

/-- The finished scans are known by the roots that were requested and by the answers that were told. -/
theorem Serves.scans_eq {q : ScanQueue} {events : List ScanEvent} {scans scans' : List FinishedScan}
    (h : q.Serves events scans) (hroots : requestedRoots events = scans'.map FinishedScan.root)
    (htold : ({} : ScanQueue).told events = scans'.flatMap FinishedScan.answers) : scans = scans' := by
  obtain ⟨underway, htold', hunderway⟩ := h.told_eq
  rw [htold] at htold'
  have hroots' := hroots.symm.trans h.requests_eq
  generalize q.running.toList.map ScanStage.root ++ q.waiting = pending at hroots'
  clear h hroots htold
  induction scans generalizing scans' with
  | nil =>
    -- What is told to a scan under way is too little for one more finished scan.
    cases scans' with
    | nil => rfl
    | cons s' scans' => exact absurd htold'.symm (hunderway.ne_answers_append s' _)
  | cons s scans ih =>
    cases scans' with
    | nil => cases htold'
    | cons s' scans' =>
      rw [List.flatMap_cons, List.flatMap_cons, List.append_assoc] at htold'
      obtain ⟨hroot, hroots'⟩ := List.cons.inj hroots'
      -- A scan's answers start with its listing, and the listing says how many contents follow.
      obtain ⟨hlisted, hreads⟩ := List.cons.inj htold'
      have hpaths : s'.paths? = s.paths? := ScanEvent.listed.inj hlisted
      have hlength : (s'.contents.map ScanEvent.read).length = (s.contents.map ScanEvent.read).length := by
        rw [List.length_map, List.length_map, s'.length_contents, s.length_contents, hpaths]
      obtain ⟨hcontents, hrest⟩ := List.append_inj hreads hlength
      have hsame : s'.contents = s.contents :=
        List.map_injective_iff.mpr (fun _ _ => ScanEvent.read.inj) hcontents
      rw [FinishedScan.ext hroot hpaths hsame, ih hrest hroots']

/-- Once no scan is under way, all requested ones have finished. -/
theorem Serves.roots_of_idle {q : ScanQueue} {events : List ScanEvent} {scans : List FinishedScan}
    (h : q.Serves events scans) (hidle : q.running = none) :
    scans.map FinishedScan.root = requestedRoots events := by
  obtain ⟨underway, _, hunderway⟩ := h.told_eq
  simp only [Underway, hidle] at hunderway
  rw [h.requests_eq, hidle, hunderway.2]
  simp

/-! ## Progress -/

/-- Between two answers any number of scans may be requested. -/
structure Moment where
  requests : List Text
  /-- The files as they are when the scan under way asks for them. -/
  files : ProjectSource

/-- A moment: its requests, then one answer for the scan under way. -/
def pass (q : ScanQueue) (m : Moment) : ScanQueue :=
  serve m.files 1 (q.run (m.requests.map .requested))

/-- The queue after the first `n` of some moments. -/
def passes (q : ScanQueue) (moments : Nat → Moment) : Nat → ScanQueue
  | 0 => q
  | n + 1 => (q.pass (moments 0)).passes (fun k => moments (k + 1)) n

theorem passes_add (q : ScanQueue) (moments : Nat → Moment) (n m : Nat) :
    q.passes moments (n + m) = (q.passes moments n).passes (fun k => moments (k + n)) m := by
  induction n generalizing q moments with
  | zero => rw [Nat.zero_add]; rfl
  | succ n ih =>
    rw [Nat.succ_add, passes, ih, passes]
    simp only [Nat.add_assoc]

/-- A moment is a part of some history. -/
theorem exists_pass_eq_run (q : ScanQueue) (m : Moment) : ∃ events, q.pass m = q.run events := by
  unfold pass serve
  split
  · rename_i event _
    exact ⟨m.requests.map .requested ++ [event], by rw [run_append]; rfl⟩
  · exact ⟨_, rfl⟩

theorem exists_passes_eq_run (q : ScanQueue) (moments : Nat → Moment) (n : Nat) :
    ∃ events, q.passes moments n = q.run events := by
  induction n generalizing q moments with
  | zero => exact ⟨[], rfl⟩
  | succ n ih =>
    obtain ⟨es, hes⟩ := exists_pass_eq_run q (moments 0)
    obtain ⟨fs, hfs⟩ := ih (q.pass (moments 0)) fun k => moments (k + 1)
    refine ⟨es ++ fs, ?_⟩
    rw [passes, hfs, hes, run_append]

/-- Requests do not disturb the scan under way. -/
theorem run_requested {q : ScanQueue} {stage : ScanStage} (h : q.running = some stage)
    (roots : List Text) :
    q.run (roots.map .requested) = { q with waiting := q.waiting ++ roots } := by
  induction roots generalizing q with
  | nil => simp [run]
  | cons root rest ih =>
    have hstep : q.step (.requested root) = { q with waiting := q.waiting ++ [root] } := by
      simp only [step, h]
    have hrun : q.run ((root :: rest).map .requested) =
        ({ q with waiting := q.waiting ++ [root] } : ScanQueue).run (rest.map .requested) := by
      rw [← hstep]; rfl
    rw [hrun, ih (q := { q with waiting := q.waiting ++ [root] }) h]
    simp

/-- A scan that has files to read is answered after as many moments. -/
theorem exists_answer_continueWith (d : Draft) (rest : List Text) (q : ScanQueue)
    (moments : Nat → Moment) :
    ∃ n, q.answers.length < ((q.continueWith d rest).passes moments n).answers.length := by
  induction rest generalizing d q moments with
  | nil =>
    refine ⟨0, ?_⟩
    rw [passes, continueWith, finish, answers_beginNext, List.length_append, List.length_singleton]
    exact Nat.lt_succ_self _
  | cons next rest ih =>
    -- The first moment answers for `next`; what it requests only waits.
    let content? := (moments 0).files.read next
    let q' : ScanQueue := { q with
      running := some (.reading d next rest), waiting := q.waiting ++ (moments 0).requests }
    have hpass : (q.continueWith d (next :: rest)).pass (moments 0) =
        (q'.warn (Draft.fileWarnings next content?)).continueWith (d.addFile next content?) rest := by
      rw [pass, continueWith, run_requested rfl]
      rfl
    obtain ⟨n, hn⟩ := ih (d.addFile next content?) (q'.warn (Draft.fileWarnings next content?))
      fun k => moments (k + 1)
    exact ⟨n + 1, by rw [passes, hpass]; exact hn⟩

/-- The scan under way is answered, whatever it is told meanwhile. -/
theorem exists_answer {q : ScanQueue} {stage : ScanStage} (h : q.running = some stage)
    (moments : Nat → Moment) : ∃ n, q.answers.length < (q.passes moments n).answers.length := by
  cases stage with
  | reading d next rest =>
    have hq : q = q.continueWith d (next :: rest) := by rw [continueWith, ← h]
    obtain ⟨n, hn⟩ := exists_answer_continueWith d (next :: rest) q moments
    exact ⟨n, by rwa [← hq] at hn⟩
  | listing root =>
    let paths? := ((moments 0).files.list root).1
    let q' : ScanQueue := { q with waiting := q.waiting ++ (moments 0).requests }
    have hpass : q.pass (moments 0) =
        (q'.warn (if paths?.isNone then [.filesUnlisted root] else [])).continueWith
          (.start root (paths?.getD [])) (Text.sorted (paths?.getD [])) := by
      rw [pass, run_requested h]
      simp only [serve, nextEvent?, h, Option.map_some, step]
      rfl
    obtain ⟨n, hn⟩ := exists_answer_continueWith (.start root (paths?.getD []))
      (Text.sorted (paths?.getD [])) (q'.warn (if paths?.isNone then [.filesUnlisted root] else []))
      fun k => moments (k + 1)
    exact ⟨n + 1, by rw [passes, hpass]; exact hn⟩

/-- As long as answers keep coming, the first `k` requests are answered, whatever is requested later. -/
theorem exists_answers {events : List ScanEvent} {k : Nat} (hk : k ≤ (requestedRoots events).length)
    (moments : Nat → Moment) :
    ∃ n, k ≤ ((({} : ScanQueue).run events).passes moments n).answers.length := by
  -- The induction is on the answers that are still missing: while there are some, a scan is under way.
  generalize hleft : k - (({} : ScanQueue).run events).answers.length = left
  induction left using Nat.strongRecOn generalizing events moments with
  | ind left ih =>
    by_cases hdone : k ≤ (({} : ScanQueue).run events).answers.length
    · exact ⟨0, hdone⟩
    · obtain ⟨scans, hserves, _⟩ := exists_serves events
      cases hrunning : (({} : ScanQueue).run events).running with
      | none =>
        have hroots := congrArg List.length (hserves.roots_of_idle hrunning)
        rw [List.length_map, ← hserves.length_answers] at hroots
        omega
      | some stage =>
        obtain ⟨n, hn⟩ := exists_answer hrunning moments
        obtain ⟨more, hmore⟩ := exists_passes_eq_run (({} : ScanQueue).run events) moments n
        rw [← run_append] at hmore
        rw [hmore] at hn
        have hk' : k ≤ (requestedRoots (events ++ more)).length := by
          rw [requestedRoots, List.filterMap_append, List.length_append]
          exact Nat.le_add_right_of_le hk
        obtain ⟨m, hm⟩ := ih _ (by omega) hk' (fun i => moments (i + n)) rfl
        exact ⟨n + m, by rw [passes_add, hmore]; exact hm⟩

/-- The scan under way is the first that has not been answered. -/
theorem Serves.root_of_running {q : ScanQueue} {events : List ScanEvent} {scans : List FinishedScan}
    {stage : ScanStage} (h : q.Serves events scans) (hrunning : q.running = some stage) :
    (requestedRoots events)[q.answers.length]? = some stage.root := by
  have hlength : (scans.map FinishedScan.root).length = q.answers.length := by
    rw [List.length_map, h.length_answers]
  rw [h.requests_eq, hrunning, List.getElem?_append_right (Nat.le_of_eq hlength), hlength, Nat.sub_self]
  rfl

/-! ## The law of the queue -/

/-- Every history is that of some scans, run one after the other in the order of their requests. At each of
its moments the queue shows the table of the scan that finished last, has answered each finished scan
with its own summary, and has told each finished scan all its answers before it told the next one any;
the scan under way is that of the first request without an answer. Once none is under way, all
requests have their scan, and the table shown is that of the last. As long as answers keep coming,
failures or not, every request gets its own. -/
theorem run_serves (events : List ScanEvent) :
    ∃ scans : List FinishedScan,
      (({} : ScanQueue).run events).Serves events scans ∧
      (∀ n, (({} : ScanQueue).run (events.take n)).Serves (events.take n)
        (scans.take (({} : ScanQueue).run (events.take n)).answers.length)) ∧
      (∀ n stage, (({} : ScanQueue).run (events.take n)).running = some stage →
        (requestedRoots (events.take n))[(({} : ScanQueue).run (events.take n)).answers.length]? =
          some stage.root) ∧
      ((({} : ScanQueue).run events).running = none →
        scans.map FinishedScan.root = requestedRoots events) ∧
      ∀ moments : Nat → Moment, ∃ n, (requestedRoots events).length ≤
        ((({} : ScanQueue).run events).passes moments n).answers.length := by
  obtain ⟨scans, hserves, hmoments⟩ := exists_serves events
  refine ⟨scans, hserves, hmoments, ?_, hserves.roots_of_idle, exists_answers (Nat.le_refl _)⟩
  intro n stage hstage
  exact (hmoments n).root_of_running hstage

end ScanQueue
end CCompletion
