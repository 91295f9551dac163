import Kvdb.Engine.Runs

/-!
# The engine as a map

After any calls that all returned, `Engine::get` answers with the last mutation
of the key, wherever flushes, compactions and reopens have put it.
-/

namespace Kvdb

open Faulty Bytes

/-- A key longer than an entry can be is refused by a lookup. -/
theorem get_oversized {φ ω : Type} {w : World φ ω} {key : List UInt8} (h : ¬ key.length < 2 ^ 32)
    (hopen : (Engine.ensureOpen w).1 = .ok ()) :
    Engine.get w key = .error ⟨.invalidArgument, "key is too large"⟩ := by
  unfold Engine.get lookup
  rw [hopen, ArenaEntry.makeEntry, dif_neg h]

section

variable [Zlib] [EngineEnv]

theorem session_up {o : DBOptions} {dir : Bool} {f : Site → List Fault} {cs : List Call} {w : World EditLog LogObject}
    (h : session cs ⟨{ options := o }, Disk.empty dir, f⟩ = (.ok (), w)) :
    Up (2 ^ 32) w.engine w.disk (mutations cs) := by
  have hP : TableFaults fun _ _ => True := ⟨fun _ => trivial, fun _ => trivial, fun _ => trivial⟩
  have hrun : Triple (fun _ _ => True) (session cs) { options := o } (Disk.empty dir)
      (fun _ e' d' => Up (2 ^ 32) e' d' (mutations cs)) (fun _ _ => True) (fun _ _ => True) := by
    refine (open_first o dir).bind fun _ e₁ d₁ hl => ?_
    exact runAll_up hP ⟨_, _, Nat.le_of_lt (UInt32.toNat_lt _), hl, stands_nil⟩
  exact ((hrun f fun _ _ _ => trivial).ok h).2

/-- **Map semantics.** -/
theorem get_last_mutation (o : DBOptions) (dir : Bool) (f : Site → List Fault) (cs : List Call)
    {w : World EditLog LogObject} (h : session cs ⟨{ options := o }, Disk.empty dir, f⟩ = (.ok (), w))
    (key : List UInt8) :
    Engine.get w key =
      if key.length < 2 ^ 32 then .ok (valueOf (mutations cs) key)
      else .error ⟨.invalidArgument, "key is too large"⟩ := by
  have hup := session_up h
  by_cases hkey : key.length < 2 ^ 32
  · rw [if_pos hkey]
    exact hup.get w.faults hkey
  · rw [if_neg hkey]
    obtain ⟨n, v, -, hl, -⟩ := hup
    exact get_oversized hkey (hl.opened.ensureOpen w.disk w.faults)

end

/-- An environment in which every table can be written. -/
@[reducible] def countingEnv : EngineEnv where
  toTableFormat := countingFormat
  memoryUsage := List.length
  compactRounds := 8

def plainOptions : DBOptions := { dbPath := [100] }

/-- Two keys, a flush, a removal and a reopen. -/
def fewCalls : List Call := [.put [97] [1], .put [98] [2], .flush, .remove [97], .reopen plainOptions]

/-- A directory that does not exist yet, and no faults. -/
def newWorld : World EditLog LogObject := ⟨{ options := plainOptions }, Disk.empty false, fun _ => []⟩

theorem fewCalls_ok : (@session documentedZlib countingEnv _ _ (@editStore documentedZlib) fewCalls newWorld).1 =
    .ok () := by
  decide +kernel

theorem get_last_mutation_fewCalls : letI := documentedZlib; letI := countingEnv
    ∃ w, session fewCalls newWorld = (.ok (), w) ∧ Engine.get w [98] = .ok (some [2]) ∧
      Engine.get w [97] = .ok none := by
  have hrun := run_eq fewCalls_ok
  refine ⟨_, hrun, ?_, ?_⟩
  · rw [@get_last_mutation documentedZlib countingEnv _ _ _ _ _ hrun [98]]
    rfl
  · rw [@get_last_mutation documentedZlib countingEnv _ _ _ _ _ hrun [97]]
    rfl

/-- A new database does not answer for a key of 2^32 bytes, which was never written. -/
theorem get_oversized_key : letI := documentedZlib; letI := countingEnv
    ¬ ∀ (cs : List Call) (w : World EditLog LogObject), session cs newWorld = (.ok (), w) →
      ∀ key, Engine.get w key = .ok (valueOf (mutations cs) key) := by
  let _ := documentedZlib
  intro h
  obtain ⟨key, hlong⟩ : ∃ key : List UInt8, ¬ key.length < 2 ^ 32 := by
    refine ⟨List.replicate (2 ^ 32) 0, ?_⟩
    rw [List.length_replicate]
    exact Nat.lt_irrefl _
  obtain ⟨w, hrun⟩ : ∃ w, @session documentedZlib countingEnv _ _ (@editStore documentedZlib) fewCalls newWorld =
      (.ok (), w) := ⟨_, run_eq fewCalls_ok⟩
  obtain ⟨n, v, -, hl, -⟩ := @session_up documentedZlib countingEnv _ _ _ _ _ hrun
  have hget := h fewCalls w hrun key
  rw [get_oversized hlong (hl.opened.ensureOpen w.disk w.faults)] at hget
  cases hget

end Kvdb
