import Mathlib.Data.List.Flatten
import CommonLib.Hlib.DataRings
import CommonLib.Library.Execution

/-!
# The files of a recorder

`THDataRec::Put` collects samples in a buffer and `THDataRec::Write` puts them into the working
file, which becomes an archive when the day of its last write is over.  This file compares the
samples put into a recorder with the records in its files.
-/

namespace CommonLib

variable {ν : Type} [DecidableEq ν]

/-- The records of the archives, in their order, and of the working file. -/
def THDataRec.DataFiles.contents (files : THDataRec.DataFiles ν) : List THDataRec.FileRecord :=
  files.history.flatMap Prod.snd ++ files.working.getD []

/-- A recorder with its files and the samples put into it since its construction. -/
structure Recording (ν : Type) where
  recorder : THDataRec
  files : THDataRec.DataFiles ν
  samples : List Sample

/-- A call of `Put`, or of `Write`, which the destructor also makes. -/
inductive RecordingOp
  | put (call : THDataRec.PutCall)
  | write (clock : Int)

namespace Recording

variable (archiveName : Int → ν)

/-- Make a call. -/
def step (state : Recording ν) : RecordingOp → Option (Recording ν)
  | .put call =>
      let (recorder, files) := state.recorder.put archiveName call.data call.time call.clock
        call.clock' state.files
      some ⟨recorder, files, state.samples ++ [call.sample]⟩
  | .write clock =>
      let (recorder, files) := state.recorder.write archiveName clock state.files
      some ⟨recorder, files, state.samples⟩

/-- The samples that have left the buffer. -/
def written (state : Recording ν) : List Sample :=
  state.samples.take (state.samples.length - state.recorder.bData.length)

/-- The files hold the samples that have left the buffer. -/
def Good (state : Recording ν) : Prop :=
  state.files.contents = state.written.map (THDataRec.fileRecord state.recorder.dataMode)

instance (state : Recording ν) : Decidable state.Good :=
  inferInstanceAs (Decidable (_ = _))

/-- A new recorder that writes to disk, where there is no file yet. -/
def start (floating : THDataMode → THCollectMode → THAddMethod) (dm : THDataMode)
    (cm : THCollectMode) (ps : THParticleSize) (clock : Int)
    (memory : THParticleSize → Nat → Int) : Recording ν :=
  ⟨.new floating dm cm ps true clock memory, ⟨none, []⟩, []⟩

/-! ## When nothing is lost -/

/-- A `Write` at the time `clock` makes an archive of the working file, if there is one, before it
writes samples, and no archive has the name already. -/
def WriteKeeps (state : Recording ν) (clock : Int) : Prop :=
  ∀ records, state.files.working = some records →
    (state.recorder.bData ≠ [] → state.recorder.needsArchive clock records = true) ∧
      (state.recorder.needsArchive clock records = true →
        ∀ file ∈ state.files.history, file.1 ≠ archiveName state.recorder.wDate)

/-- Put a sample into the buffer, as `Put` does before it writes. -/
def buffer (state : Recording ν) (call : THDataRec.PutCall) : Recording ν :=
  { state with
    recorder :=
      { state.recorder.add call.data call.sample.1 .psDefault with
        lDate := call.sample.1
        lData := call.data
        bData := state.recorder.bData ++ [call.sample] }
    samples := state.samples ++ [call.sample] }

/-- The buffer is full, or its first sample is more than three seconds old. -/
def Flushes (state : Recording ν) (call : THDataRec.PutCall) : Prop :=
  state.recorder.bData.length + 1 = H_BUFFERS ∨
    call.sample.1 - (state.recorder.bData.headD call.sample).1 > 3

instance (state : Recording ν) (call : THDataRec.PutCall) : Decidable (state.Flushes call) :=
  inferInstanceAs (Decidable (_ ∨ _))

/-- The `Write` of a call, if it makes one, keeps what is in the files. -/
def Keeps (state : Recording ν) : RecordingOp → Prop
  | .put call => state.Flushes call → WriteKeeps archiveName (state.buffer call) call.clock'
  | .write clock => WriteKeeps archiveName state clock

/-- Make a call of `Write`. -/
def write (state : Recording ν) (clock : Int) : Recording ν :=
  ⟨(state.recorder.write archiveName clock state.files).1,
    (state.recorder.write archiveName clock state.files).2, state.samples⟩

end Recording

/-! ## `Put` in two parts -/

namespace THDataRec

/-- `Add` changes the rings only. -/
theorem add_frame (recorder : THDataRec) (data : THData) (time : Int) (ps : THParticleSize) :
    (recorder.add data time ps).bData = recorder.bData ∧
      (recorder.add data time ps).dataMode = recorder.dataMode ∧
      (recorder.add data time ps).fWriteToDisk = recorder.fWriteToDisk := by
  unfold add
  split <;> exact ⟨rfl, rfl, rfl⟩

end THDataRec

namespace Recording

variable (archiveName : Int → ν)

/-- `Put` puts the sample into the buffer and writes if it has to. -/
theorem step_put {state : Recording ν} (writes : state.recorder.fWriteToDisk = true)
    (call : THDataRec.PutCall) :
    state.step archiveName (.put call) =
      some (if state.Flushes call then (state.buffer call).write archiveName call.clock'
        else state.buffer call) := by
  obtain ⟨bData_eq, -, writes_eq⟩ :=
    state.recorder.add_frame call.data call.sample.1 .psDefault
  have writes' := writes_eq.trans writes
  have time_eq : (if call.time = 0 then call.clock else call.time) = call.sample.1 := rfl
  have sample_eq : (call.sample.1, call.data) = call.sample := rfl
  have first_eq : ((state.recorder.bData ++ [call.sample]).headD call.sample).1 =
      (state.recorder.bData.headD call.sample).1 := by
    cases state.recorder.bData <;> rfl
  simp only [step, THDataRec.put, time_eq, bData_eq, sample_eq, List.length_append,
    List.length_singleton, first_eq]
  rw [if_pos writes']
  by_cases flushes : state.Flushes call
  · rw [if_pos flushes, if_pos (show _ ∨ _ from flushes)]
    rfl
  · rw [if_neg flushes, if_neg (show ¬ (_ ∨ _) from flushes)]
    rfl

theorem step_write (state : Recording ν) (clock : Int) :
    state.step archiveName (.write clock) = some (state.write archiveName clock) :=
  rfl

end Recording

/-! ## What a `Write` does to the files -/

namespace THDataRec

variable (archiveName : Int → ν)

/-- The files after the first part of `Write`. -/
def archived (recorder : THDataRec) (clock : Int) (files : DataFiles ν) : DataFiles ν :=
  match files.working with
  | some records =>
      if recorder.needsArchive clock records then
        files.archive (archiveName recorder.wDate) records
      else files
  | none => files

theorem write_eq (recorder : THDataRec) (clock : Int) (files : DataFiles ν) :
    recorder.write archiveName clock files =
      if recorder.bData.length = 0 then (recorder, recorder.archived archiveName clock files)
      else
        ({ recorder with wDate := clock, bData := [] },
          { recorder.archived archiveName clock files with
            working := some (recorder.bData.map (fileRecord recorder.dataMode)) }) :=
  rfl

/-- The working file and the archives hold records, if they exist. -/
structure DataFiles.Filled (files : DataFiles ν) : Prop where
  working_ne : ∀ records, files.working = some records → records ≠ []
  history_ne : ∀ file ∈ files.history, file.2 ≠ []

theorem DataFiles.archive_contents {files : DataFiles ν} {name : ν} {records : List FileRecord}
    (working_eq : files.working = some records) (new : ∀ file ∈ files.history, file.1 ≠ name) :
    (files.archive name records).contents = files.contents := by
  have kept : files.history.filter (fun file => decide (file.1 ≠ name)) = files.history := by
    rw [List.filter_eq_self]
    intro file member
    exact decide_eq_true (new file member)
  simp only [contents, archive, kept, working_eq, List.flatMap_append, List.flatMap_singleton,
    Option.getD_none, Option.getD_some, List.append_nil]

theorem DataFiles.Filled.archive {files : DataFiles ν} (filled : files.Filled) {name : ν}
    {records : List FileRecord} (working_eq : files.working = some records) :
    (files.archive name records).Filled where
  working_ne := by
    intro other other_eq
    cases other_eq
  history_ne := by
    intro file member
    rcases List.mem_append.mp member with old | new
    · exact filled.history_ne file (List.mem_filter.mp old).1
    · rw [List.mem_singleton.mp new]
      exact filled.working_ne records working_eq

/-- Leaving out lists that are not empty makes a concatenation shorter. -/
theorem length_flatMap_filter_lt {α β : Type*} {keep : α → Bool} {words : α → List β}
    {items : List α}
    (lost : ∃ item ∈ items, keep item = false ∧ words item ≠ []) :
    ((items.filter keep).flatMap words).length < (items.flatMap words).length := by
  obtain ⟨item, member, dropped, nonempty⟩ := lost
  obtain ⟨before, after, rfl⟩ := List.append_of_mem member
  have before_le := ((List.filter_sublist (p := keep) (l := before)).flatMap words).length_le
  have after_le := ((List.filter_sublist (p := keep) (l := after)).flatMap words).length_le
  have positive := List.length_pos_iff.mpr nonempty
  rw [List.filter_append, List.filter_cons_of_neg (by simp [dropped])]
  simp only [List.flatMap_append, List.flatMap_cons, List.length_append]
  omega

/-- An archive whose name is taken replaces the older one. -/
theorem DataFiles.Filled.archive_lt {files : DataFiles ν} (filled : files.Filled) {name : ν}
    {records : List FileRecord} (working_eq : files.working = some records)
    (taken : ∃ file ∈ files.history, file.1 = name) :
    (files.archive name records).contents.length < files.contents.length := by
  obtain ⟨file, member, name_eq⟩ := taken
  have shorter : ((files.history.filter fun file => decide (file.1 ≠ name)).flatMap
      Prod.snd).length < (files.history.flatMap Prod.snd).length :=
    length_flatMap_filter_lt
      ⟨file, member, decide_eq_false (not_not_intro name_eq), filled.history_ne file member⟩
  simp only [contents, DataFiles.archive, working_eq, List.flatMap_append, List.flatMap_singleton,
    Option.getD_none, Option.getD_some, List.append_nil, List.length_append]
  omega

variable {archiveName}

/-- A first part that keeps the archives leaves the records as they are. -/
theorem archived_contents {recorder : THDataRec} {clock : Int} {files : DataFiles ν}
    (new : ∀ records, files.working = some records → recorder.needsArchive clock records = true →
      ∀ file ∈ files.history, file.1 ≠ archiveName recorder.wDate) :
    (recorder.archived archiveName clock files).contents = files.contents := by
  rw [archived]
  split
  · next records working_eq =>
      split
      · next needed => exact DataFiles.archive_contents working_eq (new records working_eq needed)
      · rfl
  · rfl

theorem DataFiles.Filled.archived {recorder : THDataRec} {clock : Int} {files : DataFiles ν}
    (filled : files.Filled) : (recorder.archived archiveName clock files).Filled := by
  rw [THDataRec.archived]
  split
  · next records working_eq =>
      split
      · exact filled.archive working_eq
      · exact filled
  · exact filled

/-- A working file that has to be archived is not there any more. -/
theorem archived_working {recorder : THDataRec} {clock : Int} {files : DataFiles ν}
    (needed : ∀ records, files.working = some records →
      recorder.needsArchive clock records = true) :
    (recorder.archived archiveName clock files).working = none := by
  rw [archived]
  split
  · next records working_eq =>
      rw [if_pos (needed records working_eq)]
      rfl
  · next working_eq => exact working_eq

omit [DecidableEq ν] in
theorem DataFiles.refill_contents {files : DataFiles ν} (working_eq : files.working = none)
    (records : List FileRecord) :
    ({ files with working := some records } : DataFiles ν).contents =
      files.contents ++ records := by
  simp only [contents, working_eq, Option.getD_none, Option.getD_some, List.append_nil]

omit [DecidableEq ν] in
theorem DataFiles.Filled.refill {files : DataFiles ν} (filled : files.Filled)
    {records : List FileRecord} (nonempty : records ≠ []) :
    ({ files with working := some records } : DataFiles ν).Filled where
  working_ne := by
    rintro _ working_eq
    rwa [← Option.some.inj working_eq]
  history_ne := filled.history_ne

end THDataRec

namespace Recording

variable {archiveName : Int → ν}

/-! ## The invariant -/

/-- The files hold the samples that have left the buffer. -/
structure Filed (state : Recording ν) : Prop where
  writes : state.recorder.fWriteToDisk = true
  filled : state.files.Filled
  split : ∃ filed, state.samples = filed ++ state.recorder.bData ∧
    state.files.contents = filed.map (THDataRec.fileRecord state.recorder.dataMode)

omit [DecidableEq ν] in
theorem Filed.good {state : Recording ν} (filed : state.Filed) : state.Good := by
  obtain ⟨left, samples_eq, contents_eq⟩ := filed.split
  rw [Good, written, contents_eq, samples_eq, List.length_append, Nat.add_sub_cancel,
    List.take_left]

omit [DecidableEq ν] in
theorem Filed.start (floating : THDataMode → THCollectMode → THAddMethod) (dm : THDataMode)
    (cm : THCollectMode) (ps : THParticleSize) (clock : Int)
    (memory : THParticleSize → Nat → Int) :
    (Recording.start floating dm cm ps clock memory : Recording ν).Filed where
  writes := rfl
  filled := ⟨fun _ none_eq => (by cases none_eq), fun _ member => absurd member List.not_mem_nil⟩
  split := ⟨[], rfl, rfl⟩

omit [DecidableEq ν] in
theorem Filed.buffer {state : Recording ν} (filed : state.Filed) (call : THDataRec.PutCall) :
    (state.buffer call).Filed := by
  obtain ⟨-, dataMode_eq, writes_eq⟩ :=
    state.recorder.add_frame call.data call.sample.1 .psDefault
  obtain ⟨left, samples_eq, contents_eq⟩ := filed.split
  exact
    { writes := writes_eq.trans filed.writes
      filled := filed.filled
      split := by
        refine ⟨left, ?_, ?_⟩
        · simp only [Recording.buffer, samples_eq, List.append_assoc]
        · simp only [Recording.buffer, dataMode_eq, contents_eq] }

/-- A `Write` that keeps what is in the files adds the samples of the buffer. -/
theorem Filed.write {state : Recording ν} (filed : state.Filed) {clock : Int}
    (keeps : state.WriteKeeps archiveName clock) : (state.write archiveName clock).Filed := by
  obtain ⟨left, samples_eq, contents_eq⟩ := filed.split
  have archived_filled : (state.recorder.archived archiveName clock state.files).Filled :=
    filed.filled.archived
  have archived_eq := THDataRec.archived_contents fun records working_eq =>
    (keeps records working_eq).2
  rw [Recording.write, THDataRec.write_eq]
  split
  · next empty =>
      exact ⟨filed.writes, archived_filled, left, samples_eq, archived_eq.trans contents_eq⟩
  · next waiting =>
      have bData_ne : state.recorder.bData ≠ [] := fun empty => waiting (by rw [empty]; rfl)
      have working_eq : (state.recorder.archived archiveName clock state.files).working = none :=
        THDataRec.archived_working fun records working_eq => (keeps records working_eq).1 bData_ne
      exact
        { writes := filed.writes
          filled := archived_filled.refill (by simpa using bData_ne)
          split := by
            refine ⟨state.samples, (List.append_nil _).symm, ?_⟩
            rw [THDataRec.DataFiles.refill_contents working_eq, archived_eq, contents_eq,
              samples_eq, List.map_append] }

omit [DecidableEq ν] in
theorem Good.length_eq {state : Recording ν} (good : state.Good) :
    state.files.contents.length = state.samples.length - state.recorder.bData.length := by
  rw [good, List.length_map, written, List.length_take]
  omega

/-- A `Write` that truncates the working file or replaces an archive loses samples. -/
theorem Filed.write_lost {state : Recording ν} (filed : state.Filed) {clock : Int}
    (loses : ¬ state.WriteKeeps archiveName clock) : ¬ (state.write archiveName clock).Good := by
  intro good
  have length_eq := good.length_eq
  obtain ⟨left, samples_eq, contents_eq⟩ := filed.split
  have samples_length := congrArg List.length samples_eq
  have contents_length := congrArg List.length contents_eq
  rw [List.length_append] at samples_length
  rw [List.length_map] at contents_length
  rw [WriteKeeps] at loses
  push Not at loses
  obtain ⟨records, working_eq, loses⟩ := loses
  rw [Recording.write, THDataRec.write_eq] at length_eq
  by_cases needed : state.recorder.needsArchive clock records = true
  · -- the archive replaces another one
    obtain ⟨-, taken⟩ := loses fun _ => needed
    have archived_eq : state.recorder.archived archiveName clock state.files =
        state.files.archive (archiveName state.recorder.wDate) records := by
      rw [THDataRec.archived, working_eq]
      exact if_pos needed
    have shorter := filed.filled.archive_lt working_eq taken
    rw [archived_eq] at length_eq
    split at length_eq
    · dsimp only at length_eq
      omega
    · rw [THDataRec.DataFiles.refill_contents rfl, List.length_append, List.length_map] at length_eq
      simp only [List.length_nil] at length_eq
      omega
  · -- the working file is truncated
    have bData_ne : state.recorder.bData ≠ [] := by
      intro empty
      obtain ⟨needed', -⟩ := loses fun bData_ne => absurd empty bData_ne
      exact needed needed'
    have archived_eq : state.recorder.archived archiveName clock state.files = state.files := by
      rw [THDataRec.archived, working_eq]
      exact if_neg needed
    have records_length := List.length_pos_iff.mpr (filed.filled.working_ne records working_eq)
    rw [archived_eq, if_neg (by rwa [List.length_eq_zero_iff])] at length_eq
    simp only [THDataRec.DataFiles.contents, working_eq, Option.getD_some, List.length_append,
      List.length_map, List.length_nil] at length_eq contents_length
    omega

/-! ## Every run -/

theorem Filed.step {state next : Recording ν} {op : RecordingOp} (filed : state.Filed)
    (keeps : state.Keeps archiveName op) (stepped : state.step archiveName op = some next) :
    next.Filed := by
  cases op with
  | put call =>
      rw [step_put archiveName filed.writes] at stepped
      obtain rfl := Option.some.inj stepped
      split
      · next flushes => exact (filed.buffer call).write (keeps flushes)
      · exact filed.buffer call
  | write clock =>
      rw [step_write] at stepped
      obtain rfl := Option.some.inj stepped
      exact filed.write keeps

theorem Filed.lost {state next : Recording ν} {op : RecordingOp} (filed : state.Filed)
    (loses : ¬ state.Keeps archiveName op) (stepped : state.step archiveName op = some next) :
    ¬ next.Good := by
  cases op with
  | put call =>
      rw [Keeps, Classical.not_imp] at loses
      obtain ⟨flushes, loses⟩ := loses
      rw [step_put archiveName filed.writes, if_pos flushes] at stepped
      obtain rfl := Option.some.inj stepped
      exact (filed.buffer call).write_lost loses
  | write clock =>
      rw [step_write] at stepped
      obtain rfl := Option.some.inj stepped
      exact filed.write_lost loses

/-- The files always hold the samples that have left the buffer exactly if each `Write` keeps what
is in the files. -/
theorem good_iff_keeps (archiveName : Int → ν) (floating : THDataMode → THCollectMode → THAddMethod)
    (dm : THDataMode) (cm : THCollectMode) (ps : THParticleSize) (clock : Int)
    (memory : THParticleSize → Nat → Int) (ops : List RecordingOp) :
    Execution.AllStates (step archiveName) Good (start floating dm cm ps clock memory) ops ↔
      Execution.AllSteps (step archiveName) (Keeps archiveName)
        (start floating dm cm ps clock memory) ops :=
  Execution.allStates_iff_allSteps Filed Filed.good Filed.step Filed.lost
    (Filed.start floating dm cm ps clock memory) ops

/-- Four samples within ten seconds of one day; the second and the fourth make `Put` write. -/
def fourPuts : List RecordingOp :=
  [.put ⟨⟨1, 1⟩, 86400, 86400, 86400⟩, .put ⟨⟨1, 2⟩, 86404, 86404, 86404⟩,
    .put ⟨⟨1, 3⟩, 86405, 86405, 86405⟩, .put ⟨⟨1, 4⟩, 86409, 86409, 86409⟩]

/-- The second `Write` truncates the working file, which held the first two samples. -/
theorem fourPuts_lost :
    ¬ Execution.AllStates (step id) Good
      (start (fun _ _ _ dst => dst) .dmByte .cmTotal .psSecond 86400 fun _ _ => 0) fourPuts := by
  intro throughout
  have good := throughout.of_run (Option.some_get (by decide : (Execution.run (step id)
    (start (fun _ _ _ dst => dst) .dmByte .cmTotal .psSecond 86400 fun _ _ => 0)
    fourPuts).isSome)).symm
  exact absurd good (by decide)

end Recording

end CommonLib
