import Kvdb.Engine.CrashSafety

/-!
# Failed flushes

A flush may fail in any of its steps and the engine stays open.  What it
acknowledges afterwards goes to the log that it still writes, and the next open
reads the log that the manifest selects.  The two are the same log except after
one failure: the commit of the edit that selects the new log reports an error
although the whole edit is in the file.
-/

namespace Kvdb

open Faulty Bytes Recency

/-- The steps of a flush, and the work on table files. -/
def flushStep : Site → Bool
  | .flushTable | .flushRemove | .flushCreate | .flushUndo | .flushCommit | .flushSwitch | .flushClose | .flushDrop
  | .compactTables | .compactDrop => true
  | _ => false

/-- Any fault in a step of a flush. -/
def flushFaults : Permits := fun site _ => flushStep site = true

/-- A failed commit of the edit that selects a new log has not put the whole edit into the file. -/
def Torn (site : Site) (x : Fault) : Prop := site = .flushSwitch → ∀ k s, x = .err k s → k = 0

/-- Faults in the steps of a flush that keep to it. -/
def tornFaults : Permits := fun site x => flushStep site = true ∧ Torn site x

theorem tornFaults_tables : TableFaults tornFaults :=
  ⟨fun _ => ⟨rfl, fun h => by cases h⟩, fun _ => ⟨rfl, fun h => by cases h⟩, fun _ =>
    ⟨rfl, fun h => by cases h⟩⟩

theorem tornFaults_noLoss : NoLoss tornFaults :=
  ⟨fun _ _ h => (by cases h.1), fun k s h => h.2 rfl k s rfl⟩

theorem tornFaults_sureWrites : SureWrites tornFaults :=
  ⟨fun _ _ h => (by cases h.1), fun _ _ h => (by cases h.1), fun _ _ h => by cases h.1⟩

theorem tornFaults_sureClose : SureClose tornFaults := ⟨fun _ _ h => (by cases h.1), fun _ _ h => by cases h.1⟩

def Call.isReopen : Call → Bool
  | reopen _ => true
  | _ => false

section

variable [Zlib] [EngineEnv]

/-- The states of an open engine from a state of a run on, while its file operations meet only
faults in `P`: calls that returned ok, calls that failed, and closes that failed. -/
inductive Trial (P : Permits) (N : Nat) : List Event → World EditLog LogObject → Prop where
  | start {events : List Event} {w : World EditLog LogObject} : Run N events w → Trial P N events w
  | acked {events : List Event} {w w' : World EditLog LogObject} {f : Site → List Fault} {c : Call} :
      Trial P N events w → c.within N → Obeys P f → c.run { w with faults := f } = (.ok (), w') →
      Trial P N (events ++ [.acked c]) w'
  | failed {events : List Event} {w w' : World EditLog LogObject} {f : Site → List Fault} {c : Call} {s : Status} :
      Trial P N events w → c.isReopen = false → Obeys P f → c.run { w with faults := f } = (.err s, w') →
      Trial P N (events ++ [.cut (some c)]) w'
  | unclosed {events : List Event} {w w' : World EditLog LogObject} {f : Site → List Fault} {s : Status} :
      Trial P N events w → Obeys P f → Engine.close { w with faults := f } = (.err s, w') → Trial P N events w'

/-- The disk after a close of the engine, whatever its result, and opens that did not return ok. -/
inductive Closed (N : Nat) (w : World EditLog LogObject) : Disk EditLog → Prop where
  | close (f : Site → List Fault) : Closed N w (Engine.close { w with faults := f }).2.disk
  | opening {d : Disk EditLog} {o : DBOptions} {f : Site → List Fault} : Closed N w d →
      o.compaction.maxLevels.toNat ≤ N → (Engine.«open» ⟨{ options := o }, d, f⟩).1 ≠ .ok () →
      Closed N w (Engine.«open» ⟨{ options := o }, d, f⟩).2.disk

end

/-! ## One call -/

section

variable [Zlib] {P : Permits} {N n : Nat} {e : Engine LogObject} {d : Disk EditLog} {v : View} {ms : List Mutation}

/-- An open engine, perhaps after a failed flush, that stands for the mutations. -/
def Standing (N : Nat) (e : Engine LogObject) (d : Disk EditLog) (ms : List Mutation) : Prop :=
  ∃ n v, n ≤ N ∧ Failed n e d v ∧ Stands v ms

theorem Standing.down (h : Standing N e d ms) : Down N d ms := by
  obtain ⟨n, v, hn, hf, hv⟩ := h
  exact ⟨n, v, hn, hf.diskOk, hv⟩

variable [EngineEnv]

theorem put_standing (hP : TableFaults P) (hN : NoLoss P) (hS : SureWrites P) (h : Standing N e d ms)
    (key value : List UInt8) (type : RecType) :
    let m : Mutation := (key, if type = .put then some value else none)
    Triple P (Engine.putImpl key value type) e d (fun _ e' d' => Standing N e' d' (ms ++ [m]))
      (fun e' d' => Standing N e' d' ms ∨ Standing N e' d' (ms ++ [m])) (fun _ _ => True) := by
  intro m
  obtain ⟨n, v, hn, hf, hv⟩ := h
  refine (putImpl_failed hP hf).mono ?_ ?_ fun _ _ _ => trivial
  · rintro _ e' d' ⟨hs, hf'⟩
    exact ⟨n, _, hn, hf', hv.after hs⟩
  · intro e' d' he
    rcases he hN hS with h' | h'
    · exact .inl ⟨n, v, hn, h', hv⟩
    · rcases hv.maybe key value type with hv' | hv'
      · exact .inl ⟨n, _, hn, h', hv'⟩
      · exact .inr ⟨n, _, hn, h', hv'⟩

omit [EngineEnv] in
theorem Retains.standing {m : EngineM EditLog LogObject Unit} (hN : NoLoss P) (hn : n ≤ N) (hv : Stands v ms)
    (h : Retains P n v m (fun e' d' => Failed n e' d' v) e d) :
    Triple P m e d (fun _ e' d' => Standing N e' d' (ms ++ []))
      (fun e' d' => Standing N e' d' ms ∨ Standing N e' d' (ms ++ [])) (fun _ _ => True) := by
  rw [List.append_nil]
  exact h.mono (fun _ _ _ hl => ⟨n, v, hn, hl, hv⟩) (fun _ _ he => .inl ⟨n, v, hn, he hN, hv⟩) fun _ _ _ =>
    trivial

theorem call_standing (hP : TableFaults P) (hN : NoLoss P) (hS : SureWrites P) {c : Call} (hc : c.isReopen = false)
    (h : Standing N e d ms) :
    Triple P c.run e d (fun _ e' d' => Standing N e' d' (ms ++ c.mutation))
      (fun e' d' => Standing N e' d' ms ∨ Standing N e' d' (ms ++ c.mutation)) (fun _ _ => True) := by
  cases c with
  | put key value => exact put_standing hP hN hS h key value .put
  | remove key => exact put_standing hP hN hS h key [] .tombstone
  | flush =>
    obtain ⟨n, v, hn, hf, hv⟩ := h
    exact (flushUnlocked_failed hP hf).standing hN hn hv
  | compactRange first last =>
    obtain ⟨n, v, hn, hf, hv⟩ := h
    exact (compactRange_failed hP hf first last).standing hN hn hv
  | reopen o => cases hc

omit [EngineEnv] in
/-- A close and an open that both returned. -/
theorem reopen_standing {o : DBOptions} (ho : o.compaction.maxLevels.toNat ≤ N) (h : Standing N e d ms) :
    Triple P (Engine.reopen o) e d (fun _ e' d' => Standing N e' d' ms) (fun _ _ => True) (fun _ _ => True) := by
  have hd := h.down
  obtain ⟨n, v, hn, hf, hv⟩ := h
  refine Triple.bind (Q := fun _ _ d' => d' = d)
    (hf.close.mono (fun _ _ _ hq => hq) (fun _ _ _ => trivial) fun _ _ _ => trivial) ?_
  rintro _ e₁ d₁ rfl
  refine triple_restart ((open_down ho hd).mono ?_ (fun _ _ _ => trivial) fun _ _ _ => trivial)
  rintro _ e₂ d₂ ⟨n', v', hn', hl, hv'⟩
  exact ⟨n', v', hn', .inl hl, hv'⟩

/-! ## Runs -/

/-- **The invariant of a trial.** -/
theorem Trial.standing (hP : TableFaults P) (hN : NoLoss P) (hS : SureWrites P) (hC : SureClose P)
    {events : List Event} {w : World EditLog LogObject} (h : Trial P N events w) :
    ∃ ms, Accounts events ms ∧ Standing N w.engine w.disk ms := by
  induction h with
  | start hrun =>
    obtain ⟨ms, hk, n, v, hn, hl, hv⟩ := hrun.up
    exact ⟨ms, hk, n, v, hn, .inl hl, hv⟩
  | @acked events w w' f c _ hc hf hrun ih =>
    obtain ⟨ms, hk, hst⟩ := ih
    by_cases hr : c.isReopen = true
    · cases c with
      | reopen o =>
        have hst' := ((reopen_standing hc hst) f hf).ok hrun
        have hk' := Accounts.acked (.reopen o) hk
        rw [show ms ++ (Call.reopen o).mutation = ms from List.append_nil ms] at hk'
        exact ⟨ms, hk', hst'.2⟩
      | _ => cases hr
    · have hst' := ((call_standing hP hN hS (by simpa using hr) hst) f hf).ok hrun
      exact ⟨ms ++ c.mutation, .acked c hk, hst'.2⟩
  | @failed events w w' f c s _ hc hf hrun ih =>
    obtain ⟨ms, hk, hst⟩ := ih
    rcases (((call_standing hP hN hS hc hst) f hf).err hrun).2 with h' | h'
    · exact ⟨ms, .dropped (some c) hk, h'⟩
    · exact ⟨ms ++ c.mutation, .applied (some c) hk, h'⟩
  | @unclosed events w w' f s _ hf hrun ih =>
    obtain ⟨ms, hk, n, v, hn, hfail, hv⟩ := ih
    obtain ⟨hd, he⟩ := ((hfail.close f hf).err hrun).2
    refine ⟨ms, hk, n, v, hn, ?_, hv⟩
    rw [hd, he hC]
    exact hfail

omit [EngineEnv] in
theorem Closed.down {w : World EditLog LogObject} {d : Disk EditLog} (h : Closed N w d)
    (hst : Standing N w.engine w.disk ms) : Down N d ms := by
  have hobeys : ∀ f, Obeys (fun _ _ => True) f := fun _ _ _ _ => trivial
  induction h with
  | close f =>
    have hd := hst.down
    obtain ⟨n, v, hn, hf, hv⟩ := hst
    have hends := hf.close f (hobeys f)
    match hrun : Engine.close { w with faults := f } with
    | (.ok u, w') =>
      rw [show w'.disk = w.disk from (hends.ok hrun).2]
      exact hd
    | (.err s, w') =>
      rw [show w'.disk = w.disk from (hends.err hrun).2.1]
      exact hd
    | (.crash, w') =>
      rw [show w'.disk = w.disk from (hends.crash hrun).2]
      exact hd
  | @opening d o f _ ho hfail ih =>
    have hends := (open_down ho ih) f (hobeys f)
    match hrun : Engine.«open» ⟨{ options := o }, d, f⟩ with
    | (.ok u, w') =>
      rw [hrun] at hfail
      exact absurd rfl hfail
    | (.err s, w') => exact (hends.err hrun).2
    | (.crash, w') => exact (hends.crash hrun).2

/-- **Acknowledged writes after a failed flush.** -/
theorem acked_visible {events : List Event} {w : World EditLog LogObject} (h : Trial tornFaults N events w)
    {d : Disk EditLog} (hclosed : Closed N w d) {o : DBOptions} (ho : o.compaction.maxLevels.toNat ≤ N)
    {f : Site → List Fault} {w' : World EditLog LogObject}
      (hopen : Engine.«open» ⟨{ options := o }, d, f⟩ = (.ok (), w')) :
    ∃ ms, Accounts events ms ∧ Serves w' ms := by
  obtain ⟨ms, hk, hst⟩ := h.standing tornFaults_tables tornFaults_noLoss tornFaults_sureWrites tornFaults_sureClose
  have hdown := hclosed.down hst
  have hup := ((open_down (P := fun _ _ => True) ho hdown f fun _ _ _ => trivial).ok hopen).2
  exact ⟨ms, hk, hup.serves⟩

end

theorem Accounts.last_acked {events : List Event} {c : Call} {ms : List Mutation}
    (h : Accounts (events ++ [.acked c]) ms) : ∃ ms', Accounts events ms' ∧ ms = ms' ++ c.mutation := by
  generalize hall : events ++ [Event.acked c] = all at h
  cases h with
  | nil =>
    rw [List.append_eq_nil_iff] at hall
    cases hall.2
  | acked c' hk =>
    obtain ⟨rfl, hlast⟩ := List.append_inj' hall rfl
    cases hlast
    exact ⟨_, hk, rfl⟩
  | dropped c' hk =>
    cases (List.append_inj' hall rfl).2
  | applied c' hk =>
    cases (List.append_inj' hall rfl).2

section

/-- The commit that selects the new log fails with the edit in the file. -/
def wholeEdit : Site → List Fault
  | .flushSwitch => [.err 1 ⟨.ioError, "sync failed"⟩]
  | _ => []

/-- The same commit, with nothing of the edit in the file. -/
def noEdit : Site → List Fault
  | .flushSwitch => [.err 0 ⟨.ioError, "append failed"⟩]
  | _ => []

/-- A flush with these faults, then a put. -/
def afterFlush (f : Site → List Fault) : World EditLog LogObject := letI := documentedZlib; letI := countingEnv
  (Call.flush.run { oneKeyWorld with faults := f }).2

def laterPut (f : Site → List Fault) : World EditLog LogObject := letI := documentedZlib; letI := countingEnv
  ((Call.put [98] [2]).run { afterFlush f with faults := fun _ => [] }).2

/-- The disk after a close. -/
def closedDisk (f : Site → List Fault) : Disk EditLog := letI := documentedZlib
  (Engine.close ⟨(laterPut f).engine, (laterPut f).disk, fun _ => []⟩).2.disk

theorem closedDisk_closed (f : Site → List Fault) : @Closed documentedZlib 7 (laterPut f) (closedDisk f) :=
  @Closed.close documentedZlib 7 (laterPut f) fun _ => []

/-- A new engine on that disk. -/
def reopening (f : Site → List Fault) : World EditLog LogObject :=
  ⟨{ options := plainOptions }, closedDisk f, fun _ => []⟩

def laterOpen (f : Site → List Fault) : World EditLog LogObject := letI := documentedZlib
  (Engine.«open» (reopening f)).2

theorem obeys_nil (P : Permits) : Obeys P fun _ => [] := fun _ _ hx => by cases hx

/-- A put after a failed flush whose edit did not reach the file. -/
theorem acked_visible_noEdit : Engine.get (laterOpen noEdit) [98] = .ok (some [2]) := by
  let _ := documentedZlib
  let _ := countingEnv
  have hflush : (Call.flush.run { oneKeyWorld with faults := noEdit }).1 = .err ⟨.ioError, "append failed"⟩ := by
    decide +kernel
  have hput : ((Call.put [98] [2]).run { afterFlush noEdit with faults := fun _ => [] }).1 = .ok () := by decide +kernel
  have hopen : (Engine.«open» (reopening noEdit)).1 = .ok () := by decide +kernel
  have hclosed := closedDisk_closed noEdit
  have hobeys : Obeys tornFaults noEdit := by
    intro site x hx
    cases site with
    | flushSwitch =>
      refine ⟨rfl, fun _ k s heq => ?_⟩
      rw [List.mem_singleton.mp hx] at heq
      cases heq
      rfl
    | _ => cases hx
  have hfailed : Trial tornFaults 7 _ (afterFlush noEdit) :=
    .failed (c := .flush) (.start oneKeyWorld_run) rfl hobeys (run_eq hflush)
  have htrial : Trial tornFaults 7 _ (laterPut noEdit) :=
    .acked (c := .put [98] [2]) hfailed trivial (obeys_nil _) (run_eq hput)
  obtain ⟨ms, hk, hserves⟩ := @acked_visible documentedZlib 7 countingEnv _ _ htrial _ hclosed plainOptions
    (by decide) _ (laterOpen noEdit) (run_eq hopen)
  obtain ⟨ms', -, rfl⟩ := hk.last_acked
  refine (hserves [98] (by decide)).trans ?_
  rw [show ms' ++ (Call.put [98] [2]).mutation = ms' ++ [([98], some [2])] from rfl, valueOf_append]
  rfl

/-- The put is acknowledged and lost: the manifest selects the log that the failed flush removed. -/
theorem acked_lost_wholeEdit : letI := documentedZlib; letI := countingEnv
    ¬ ∀ (N : Nat) (events : List Event) (w : World EditLog LogObject) (d : Disk EditLog) (o : DBOptions)
      (f : Site → List Fault) (w' : World EditLog LogObject), Trial flushFaults N events w → Closed N w d →
      o.compaction.maxLevels.toNat ≤ N → Engine.«open» ⟨{ options := o }, d, f⟩ = (.ok (), w') →
      ∃ ms, Accounts events ms ∧ Serves w' ms := by
  let _ := documentedZlib
  let _ := countingEnv
  intro h
  have hflush : (Call.flush.run { oneKeyWorld with faults := wholeEdit }).1 = .err ⟨.ioError, "sync failed"⟩ := by
    decide +kernel
  have hput : ((Call.put [98] [2]).run { afterFlush wholeEdit with faults := fun _ => [] }).1 = .ok () := by
    decide +kernel
  have hopen : (Engine.«open» (reopening wholeEdit)).1 = .ok () := by decide +kernel
  have hclosed := closedDisk_closed wholeEdit
  have hobeys : Obeys flushFaults wholeEdit := by
    intro site x hx
    cases site with
    | flushSwitch => rfl
    | _ => cases hx
  have hfailed : Trial flushFaults 7 _ (afterFlush wholeEdit) :=
    .failed (c := .flush) (.start oneKeyWorld_run) rfl hobeys (run_eq hflush)
  have htrial : Trial flushFaults 7 _ (laterPut wholeEdit) :=
    .acked (c := .put [98] [2]) hfailed trivial (obeys_nil _) (run_eq hput)
  obtain ⟨ms, hk, hserves⟩ := h 7 _ _ _ plainOptions _ (laterOpen wholeEdit) htrial hclosed (by decide)
      (run_eq hopen)
  obtain ⟨ms', -, rfl⟩ := hk.last_acked
  have hget : Engine.get (laterOpen wholeEdit) [98] = .ok none := by decide +kernel
  have hval := hserves [98] (by decide)
  rw [show ms' ++ (Call.put [98] [2]).mutation = ms' ++ [([98], some [2])] from rfl, valueOf_append] at hval
  rw [hget] at hval
  cases hval

end

end Kvdb
