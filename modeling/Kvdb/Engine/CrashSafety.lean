import Mathlib.Data.UInt
import Kvdb.Engine.MapSemantics

/-!
# Crashes

A run is made of calls that returned and of crashes: the process is lost in a
call, between two calls, or in an open after an earlier crash, and the next open
that returns goes on from the disk that is left.  A crash in a file operation
leaves it done or not done, and a log append cut at any byte.

`Accounts events ms`: the acknowledged mutations in order, with some of those that
were cut.
-/

namespace Kvdb

open Faulty Bytes Recency

/-! ## Runs with crashes -/

inductive Event where
  | acked (c : Call)
  /-- a call that did not return ok, or none: the process was lost between two -/
  | cut (c : Option Call)

/-- The mutation of the call that was cut. -/
def inFlight (c : Option Call) : List Mutation := (c.map Call.mutation).getD []

inductive Accounts : List Event → List Mutation → Prop where
  | nil : Accounts [] []
  | acked {events : List Event} {ms : List Mutation} (c : Call) :
      Accounts events ms → Accounts (events ++ [.acked c]) (ms ++ c.mutation)
  | dropped {events : List Event} {ms : List Mutation} (c : Option Call) :
      Accounts events ms → Accounts (events ++ [.cut c]) ms
  | applied {events : List Event} {ms : List Mutation} (c : Option Call) :
      Accounts events ms → Accounts (events ++ [.cut c]) (ms ++ inFlight c)

/-- The only faults are lost processes. -/
def Crashes (f : Site → List Fault) : Prop := ∀ site, ∀ x ∈ f site, ∀ k s, x ≠ .err k s

/-- A lost process at any operation; at the table files a reported error as well. -/
def cutPermits : Permits := fun site x =>
  (site = .flushTable ∨ site = .compactTables ∨ site = .compactDrop) ∨ ∀ k s, x ≠ .err k s

theorem cutPermits_tables : TableFaults cutPermits :=
  ⟨fun _ => .inl (.inl rfl), fun _ => .inl (.inr (.inl rfl)), fun _ => .inl (.inr (.inr rfl))⟩

theorem cutPermits_noLoss : NoLoss cutPermits := by
  refine ⟨fun k s h => ?_, fun k s h => ?_⟩
  · rcases h with (h | h | h) | h
    · cases h
    · cases h
    · cases h
    · exact absurd rfl (h k s)
  · rcases h with (h | h | h) | h
    · cases h
    · cases h
    · cases h
    · exact absurd rfl (h k s)

theorem Crashes.obeys {f : Site → List Fault} (h : Crashes f) : Obeys cutPermits f :=
  fun site x hx => .inr (h site x hx)

section

variable [Zlib] [EngineEnv]

/-- The disk left behind by a crash of the engine in `w`, and by crashes of later opens. -/
inductive Crashed (N : Nat) (w : World EditLog LogObject) : Option Call → Disk EditLog → Prop where
  | call {c : Call} {f : Site → List Fault} {w' : World EditLog LogObject} :
      c.within N → Crashes f → c.run { w with faults := f } = (.crash, w') → Crashed N w (some c) w'.disk
  | idle : Crashed N w none w.disk
  | opening {c : Option Call} {d : Disk EditLog} {o : DBOptions} {f : Site → List Fault}
      {w' : World EditLog LogObject} : Crashed N w c d → o.compaction.maxLevels.toNat ≤ N → Crashes f →
      Engine.«open» ⟨{ options := o }, d, f⟩ = (.crash, w') → Crashed N w c w'.disk

/-- The states of an open database, by what happened since its first open; no open uses more
than `N` levels. -/
inductive Run (N : Nat) : List Event → World EditLog LogObject → Prop where
  | first {o : DBOptions} {dir : Bool} {f : Site → List Fault} {w : World EditLog LogObject} :
      o.compaction.maxLevels.toNat ≤ N → Engine.«open» ⟨{ options := o }, Disk.empty dir, f⟩ =
        (.ok (), w) → Run N [] w
  | acked {events : List Event} {w w' : World EditLog LogObject} {f : Site → List Fault} {c : Call} :
      Run N events w → c.within N → c.run { w with faults := f } = (.ok (), w') → Run N (events ++ [.acked c]) w'
  | recovered {events : List Event} {w w' : World EditLog LogObject} {c : Option Call} {d : Disk EditLog}
      {o : DBOptions} {f : Site → List Fault} : Run N events w → Crashed N w c d →
      o.compaction.maxLevels.toNat ≤ N → Engine.«open» ⟨{ options := o }, d, f⟩ = (.ok (), w') →
      Run N (events ++ [.cut c]) w'

/-! ## What a run keeps -/

variable {N : Nat} {events : List Event} {w w' : World EditLog LogObject} {ms : List Mutation}

theorem Crashed.down {c : Option Call} {d : Disk EditLog} (h : Crashed N w c d) (hup : Up N w.engine w.disk ms) :
    Down N d ms ∨ Down N d (ms ++ inFlight c) := by
  induction h with
  | call hc hf hrun =>
    exact (((call_up cutPermits_tables hc hup) _ hf.obeys).crash hrun).2 cutPermits_noLoss
  | idle => exact .inl hup.down
  | @opening c d o f w' _ ho hf hrun ih =>
    rcases ih with hd | hd
    · exact .inl (((open_down ho hd) f hf.obeys).crash hrun).2
    · exact .inr (((open_down ho hd) f hf.obeys).crash hrun).2

/-- **The invariant of a run.** -/
theorem Run.up (h : Run N events w) : ∃ ms, Accounts events ms ∧ Up N w.engine w.disk ms := by
  have hall : TableFaults fun _ _ => True := ⟨fun _ => trivial, fun _ => trivial, fun _ => trivial⟩
  have hobeys : ∀ f, Obeys (fun _ _ => True) f := fun _ _ _ _ => trivial
  induction h with
  | @first o dir f w ho hopen =>
    have hl := ((open_first o dir) f (hobeys f)).ok hopen
    exact ⟨[], .nil, _, _, ho, hl.2, stands_nil⟩
  | @acked events w w' f c _ hc hrun ih =>
    obtain ⟨ms, hk, hup⟩ := ih
    have hup' := ((call_up hall hc hup) f (hobeys f)).ok hrun
    exact ⟨ms ++ c.mutation, .acked c hk, hup'.2⟩
  | @recovered events w w' c d o f _ hcut ho hopen ih =>
    obtain ⟨ms, hk, hup⟩ := ih
    rcases hcut.down hup with hd | hd
    · exact ⟨ms, .dropped c hk, (((open_down ho hd) f (hobeys f)).ok hopen).2⟩
    · exact ⟨ms ++ inFlight c, .applied c hk, (((open_down ho hd) f (hobeys f)).ok hopen).2⟩

/-! ## The next open -/

/-- The engine answers with the mutations, for every key it takes. -/
def Serves (w : World EditLog LogObject) (ms : List Mutation) : Prop :=
  ∀ key : List UInt8, key.length < 2 ^ 32 → Engine.get w key = .ok (valueOf ms key)

omit [EngineEnv] in
theorem Up.serves (h : Up N w.engine w.disk ms) : Serves w ms := fun _ hkey => h.get w.faults hkey

omit [Zlib] [EngineEnv] in
/-- The selected log is the first one or one that an edit names. -/
theorem replayFrom_walId {edits : List VersionEdit} {lm lm' : LevelManager} {c c' : StagedCounters}
    (h : replayFrom (lm, c) edits = .ok (lm', c')) :
    c'.currentWalId = c.currentWalId ∨ ∃ e ∈ edits, e.currentWalId = some c'.currentWalId := by
  induction edits generalizing lm c with
  | nil =>
    cases h
    exact .inl rfl
  | cons e es ih =>
    rw [replayFrom, List.foldlM_cons] at h
    obtain ⟨⟨lm₁, c₁⟩, h1, h2⟩ := except_bind_ok h
    rcases ih h2 with heq | ⟨e', he', heq⟩
    · have hwal := (stageCounter_ok (stageApply_ok_iff.mp h1).currentWalId).1
      cases hv : e.currentWalId with
      | none =>
        rw [hv] at hwal
        exact .inl (heq.trans hwal)
      | some id =>
        rw [hv] at hwal
        exact .inr ⟨e, List.mem_cons_self, by rw [hv, heq, hwal]; rfl⟩
    · exact .inr ⟨e', List.mem_cons_of_mem _ he', heq⟩

omit [EngineEnv] in
/-- An open without faults, with options that fit. -/
theorem Down.open {d : Disk EditLog} (h : Down N d ms) {o : DBOptions} (hvalid : o.validate = .ok ())
    (hexists : o.errorIfExists = false) (hlevels : N ≤ o.compaction.maxLevels.toNat)
    (hwal : ∀ e ∈ EditLog.editsOf d.manifest, e.currentWalId ≠ some (2 ^ 32 - 1)) :
    ∃ w', Engine.«open» ⟨{ options := o }, d, fun _ => []⟩ = (.ok (), w') ∧ Serves w' ms := by
  obtain ⟨n, v, hn, hd, hv⟩ := h
  have hopenable : Openable (fun _ _ => False) o n d := by
    refine ⟨fun _ _ _ h => h, hvalid, hexists, hn.trans hlevels, ?_⟩
    intro lm c hp hmax
    obtain ⟨edits, hm, hr⟩ := hp.edits
    rw [show EditLog.editsOf d.manifest = edits by rw [hm]; rfl] at hwal
    have hlast : c.currentWalId = 2 ^ 32 - 1 := UInt64.toNat_inj.mp hmax
    rcases replayFrom_walId hr with h1 | ⟨e, he, h1⟩
    · rw [h1] at hlast
      exact absurd hlast (by decide)
    · exact hwal e he (by rw [h1, hlast])
  have htriple := open_opens (P := fun _ _ => False) o hd (fun _ => []) fun _ _ hx => by cases hx
  match hrun : Engine.«open» ⟨{ options := o }, d, fun _ => []⟩ with
  | (.ok u, w') =>
    have hl := (htriple.ok hrun).2
    exact ⟨w', rfl, Up.serves ⟨_, v, Nat.le_refl _, hl, hv⟩⟩
  | (.err s, w') => exact absurd hopenable (htriple.err hrun).2.1
  | (.crash, w') =>
    obtain ⟨⟨_, _, hfalse⟩, -⟩ := htriple.crash hrun
    exact hfalse.elim

/-- **Crash safety.** -/
theorem open_after_crash (h : Run N events w) {c : Option Call} {d : Disk EditLog} (hcut : Crashed N w c d)
    {o : DBOptions} (hvalid : o.validate = .ok ()) (hexists : o.errorIfExists = false)
    (hlevels : N ≤ o.compaction.maxLevels.toNat)
    (hwal : ∀ e ∈ EditLog.editsOf d.manifest, e.currentWalId ≠ some (2 ^ 32 - 1)) :
    ∃ ms w', Accounts events ms ∧ Serves w ms ∧ Engine.«open» ⟨{ options := o }, d, fun _ => []⟩ =
      (.ok (), w') ∧
      (Serves w' ms ∨ Serves w' (ms ++ inFlight c)) := by
  obtain ⟨ms, hk, hup⟩ := h.up
  rcases hcut.down hup with hd | hd
  · obtain ⟨w', hopen, hserves⟩ := hd.open hvalid hexists hlevels hwal
    exact ⟨ms, w', hk, hup.serves, hopen, .inl hserves⟩
  · obtain ⟨w', hopen, hserves⟩ := hd.open hvalid hexists hlevels hwal
    exact ⟨ms, w', hk, hup.serves, hopen, .inr hserves⟩

end

section

/-- A new database, and its one key. -/
def openedWorld : World EditLog LogObject := letI := documentedZlib; (Engine.«open» newWorld).2

def oneKeyWorld : World EditLog LogObject := letI := documentedZlib; letI := countingEnv
  ((Call.put [97] [1]).run { openedWorld with faults := fun _ => [] }).2

/-- The sixth byte of the next append is the last. -/
def cutAppend : Site → List Fault
  | .putAppend => [.crash 5]
  | _ => []

theorem cutAppend_crashes : Crashes cutAppend := by
  intro site x hx k s heq
  subst heq
  cases site with
  | putAppend => simp [cutAppend] at hx
  | _ => cases hx

theorem oneKeyWorld_run : @Run documentedZlib countingEnv 7 [.acked (.put [97] [1])] oneKeyWorld := by
  let _ := documentedZlib
  let _ := countingEnv
  have hopen : (Engine.«open» newWorld).1 = .ok () := by decide +kernel
  have hput : ((Call.put [97] [1]).run { openedWorld with faults := fun _ => [] }).1 = .ok () := by decide +kernel
  have hfirst : Run 7 [] openedWorld := .first (by decide) (run_eq hopen)
  exact .acked hfirst trivial (run_eq hput)

/-- The process is lost in the sixth byte of a write to the log. -/
theorem open_after_crash_cutAppend : letI := documentedZlib; letI := countingEnv
    ∃ d ms w', Crashed 7 oneKeyWorld (some (.put [97] [2])) d ∧ Accounts [.acked (.put [97] [1])] ms ∧
      Engine.«open» ⟨{ options := plainOptions }, d, fun _ => []⟩ = (.ok (), w') ∧
      (Serves w' ms ∨ Serves w' (ms ++ [([97], some [2])])) := by
  let _ := documentedZlib
  let _ := countingEnv
  have hcrash : ((Call.put [97] [2]).run { oneKeyWorld with faults := cutAppend }).1 = .crash := by decide +kernel
  have hcut : Crashed 7 oneKeyWorld (some (.put [97] [2])) _ := .call trivial cutAppend_crashes (run_eq hcrash)
  have hwal : (EditLog.editsOf ((Call.put [97] [2]).run
      { oneKeyWorld with faults := cutAppend }).2.disk.manifest) = [] := by
    decide +kernel
  obtain ⟨ms, w', hk, -, hopen, hserves⟩ := @open_after_crash documentedZlib countingEnv _ _ _ oneKeyWorld_run
      _ _ hcut
    plainOptions (by rfl) rfl (by decide) (by rw [hwal]; intro e he; cases he)
  exact ⟨_, ms, w', hcut, hk, hopen, hserves⟩

def strictOptions : DBOptions := { plainOptions with errorIfExists := true }

def strictWorld : World EditLog LogObject := ⟨{ options := strictOptions }, Disk.empty false, fun _ => []⟩

/-- With `error_if_exists` the first open is the last. -/
theorem open_after_crash_errorIfExists : letI := documentedZlib; letI := countingEnv
    ¬ ∀ (N : Nat) (events : List Event) (w : World EditLog LogObject) (c : Option Call) (d : Disk EditLog)
      (o : DBOptions), Run N events w → Crashed N w c d → o.validate = .ok () →
      ∃ w', Engine.«open» ⟨{ options := o }, d, fun _ => []⟩ = (.ok (), w') := by
  let _ := documentedZlib
  let _ := countingEnv
  intro h
  have hopen : (Engine.«open» strictWorld).1 = .ok () := by decide +kernel
  have hrun : Run 7 [] (Engine.«open» strictWorld).2 := .first (by decide) (run_eq hopen)
  obtain ⟨w', hw'⟩ := h 7 [] _ none _ strictOptions hrun .idle (by rfl)
  have herr : (Engine.«open» (⟨{ options := strictOptions }, (Engine.«open» strictWorld).2.disk, fun _ => []⟩ :
      World EditLog LogObject)).1 = .err ⟨.alreadyExists, "database directory already exists"⟩ := by decide +kernel
  rw [hw'] at herr
  cases herr

end

end Kvdb
