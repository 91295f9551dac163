import Kvdb.Engine.Logs

/-!
# Rules for programs over the engine's world

`Triple P m e d Q E C`: from the engine `e` and the disk `d`, whatever faults the
operations meet as long as `P` permits them, the program `m` ends with a result
in `Q`, with an error in `E`, or loses the process in `C` when `P` permits that.  The lists of faults
are gone from the statements: a rule for a file operation asks for each way the
operation may end.
-/

namespace Kvdb

open Faulty Bytes

section

variable {φ ω α β : Type}

/-- Which faults may occur where. -/
abbrev Permits := Site → Fault → Prop

/-- The faults waiting for the world are permitted. -/
def Obeys (P : Permits) (f : Site → List Fault) : Prop := ∀ site, ∀ x ∈ f site, P site x

/-- Some operation may lose the process. -/
def Lossy (P : Permits) : Prop := ∃ site k, P site (.crash k)

def Triple (P : Permits) (m : EngineM φ ω α) (e : Engine ω) (d : Disk φ)
    (Q : α → Engine ω → Disk φ → Prop)
    (E C : Engine ω → Disk φ → Prop) : Prop :=
  ∀ f, Obeys P f →
    Ends (fun a w => Obeys P w.faults ∧ Q a w.engine w.disk) (fun w => Obeys P w.faults ∧ E w.engine w.disk)
      (fun w => Lossy P ∧ C w.engine w.disk) (m ⟨e, d, f⟩)

variable {P : Permits} {m : EngineM φ ω α} {e : Engine ω} {d : Disk φ}
    {Q Q' : α → Engine ω → Disk φ → Prop}
  {R : β → Engine ω → Disk φ → Prop} {E E' C C' : Engine ω → Disk φ → Prop}

/-! ## Structure -/

theorem Triple.mono (h : Triple P m e d Q E C) (hq : ∀ a e d, Q a e d → Q' a e d)
    (he : ∀ e d, E e d → E' e d) (hc : ∀ e d, C e d → C' e d) : Triple P m e d Q' E' C' :=
  fun f hf => (h f hf).mono (fun a _ hw => ⟨hw.1, hq a _ _ hw.2⟩) (fun _ hw => ⟨hw.1, he _ _ hw.2⟩)
    fun _ hw => ⟨hw.1, hc _ _ hw.2⟩

theorem Triple.bind {k : α → EngineM φ ω β} (hm : Triple P m e d Q E C)
    (hk : ∀ a e' d', Q a e' d' → Triple P (k a) e' d' R E C) : Triple P (m >>= k) e d R E C :=
  fun f hf => (hm f hf).bind fun a w hw => hk a w.engine w.disk hw.2 w.faults hw.1

theorem triple_pure {a : α} (h : Q a e d) : Triple P (pure a) e d Q E C := fun _ hf => ⟨hf, h⟩

theorem triple_fail {x : Status} (h : E e d) : Triple P (fail x : EngineM φ ω α) e d Q E C := fun _ hf => ⟨hf, h⟩

theorem triple_get {k : World φ ω → EngineM φ ω α} (h : ∀ f, Triple P (k ⟨e, d, f⟩) e d Q E C) :
    Triple P (Faulty.get >>= k) e d Q E C := fun f hf => h f f hf

theorem triple_ensure {b : Bool} {x : Status} {k : Unit → EngineM φ ω α} (herr : b = false → E e d)
    (hk : b = true → Triple P (k ()) e d Q E C) : Triple P (ensure b x >>= k) e d Q E C :=
  fun f hf => ends_guard (fun hb => ⟨hf, herr hb⟩) fun hb => hk hb f hf

theorem triple_check {b : Bool} {x : Status} {Q : Unit → Engine ω → Disk φ → Prop} (herr : b = false → E e d)
    (hok : b = true → Q () e d) : Triple P (ensure b x) e d Q E C :=
  fun _ hf => ends_ensure (fun hb => ⟨hf, hok hb⟩) fun hb => ⟨hf, herr hb⟩

theorem triple_lift {x : Except Status β} {k : β → EngineM φ ω α} (herr : ∀ s, x = .error s → E e d)
    (hk : ∀ b, x = .ok b → Triple P (k b) e d Q E C) : Triple P (lift x >>= k) e d Q E C :=
  fun f hf => ends_lift_bind (fun s hs => ⟨hf, herr s hs⟩) fun b hb => hk b hb f hf

theorem triple_return {x : Except Status α} (herr : ∀ s, x = .error s → E e d)
    (hok : ∀ a, x = .ok a → Q a e d) :
    Triple P (lift x : EngineM φ ω α) e d Q E C :=
  fun _ hf => ends_lift (fun a ha => ⟨hf, hok a ha⟩) fun s hs => ⟨hf, herr s hs⟩

theorem triple_modify {g : Engine ω → Engine ω} {k : Unit → EngineM φ ω α}
    (hk : Triple P (k ()) (g e) d Q E C) :
    Triple P (modifyEngine g >>= k) e d Q E C := fun f hf => hk f hf

theorem triple_set {g : Engine ω → Engine ω} {Q : Unit → Engine ω → Disk φ → Prop} (h : Q () (g e) d) :
    Triple P (modifyEngine g) e d Q E C := fun _ hf => ⟨hf, h⟩

theorem Triple.orElse {x : Status → EngineM φ ω α} {F : Engine ω → Disk φ → Prop} (hm : Triple P m e d Q F C)
    (hx : ∀ s e' d', F e' d' → Triple P (x s) e' d' Q E C) : Triple P (orElse m x) e d Q E C :=
  fun f hf => (hm f hf).orElse fun s w hw => hx s w.engine w.disk hw.2 w.faults hw.1

theorem Triple.ignore {m : EngineM φ ω Unit} {Q : Unit → Engine ω → Disk φ → Prop}
    (hm : Triple P m e d Q (Q ()) C) : Triple P (ignore m) e d Q E C :=
  hm.orElse fun _ _ _ h => triple_pure h

/-! ## File operations -/

theorem Obeys.update {f : Site → List Fault} (hf : Obeys P f) {site : Site} {l : List Fault}
    (hl : ∀ x ∈ l, P site x) : Obeys P (Function.update f site l) := by
  intro s x hx
  by_cases hs : s = site
  · subst hs
    rw [Function.update_self] at hx
    exact hl x hx
  · rw [Function.update_of_ne hs] at hx
    exact hf s x hx

theorem Obeys.pop {f : Site → List Fault} (hf : Obeys P f) (e : Engine ω) (d : Disk φ) (site : Site) :
    Obeys P (World.pop ⟨e, d, f⟩ site).faults :=
  hf.update fun x hx => hf site x (List.mem_of_mem_tail hx)

/-- The next fault of a site, when it is one. -/
theorem Obeys.fault {f : Site → List Fault} (hf : Obeys P f) {site : Site} {x : Fault}
    (hx : World.fault ⟨e, d, f⟩ site = x) (h : x ≠ .none) : P site x := by
  subst hx
  unfold World.fault at h ⊢
  cases hs : f site with
  | nil =>
    rw [show (⟨e, d, f⟩ : World φ ω).faults site = [] from hs] at h
    exact absurd rfl h
  | cons x xs =>
    rw [show (⟨e, d, f⟩ : World φ ω).faults site = x :: xs from hs]
    exact hf site x (by rw [hs]; exact List.mem_cons_self)

theorem triple_fileOp {site : Site} {g : Disk φ → Disk φ} {Q : Unit → Engine ω → Disk φ → Prop}
    (hok : Q () e (g d)) (herr : ∀ n s, P site (.err n s) → E e d ∧ E e (g d))
    (hcrash : C e d ∧ C e (g d)) : Triple P (fileOp site g) e d Q E C := by
  intro f hf
  have hpop := hf.pop e d site
  unfold fileOp
  cases hfault : World.fault ⟨e, d, f⟩ site with
  | none => exact ⟨hpop, hok⟩
  | err n s =>
    obtain ⟨h1, h2⟩ := herr n s (hf.fault hfault (by simp))
    dsimp only
    split
    · exact ⟨hpop, h1⟩
    · exact ⟨hpop, h2⟩
  | crash n =>
    have hl : Lossy P := ⟨site, n, hf.fault hfault (by simp)⟩
    dsimp only
    split
    · exact ⟨hl, hcrash.1⟩
    · exact ⟨hl, hcrash.2⟩

theorem triple_touch {site : Site} {Q : Unit → Engine ω → Disk φ → Prop} (hok : Q () e d)
    (herr : ∀ n s, P site (.err n s) → E e d) (hcrash : C e d) : Triple P (touch site) e d Q E C :=
  triple_fileOp (g := id) hok (fun n s h => ⟨herr n s h, herr n s h⟩) ⟨hcrash, hcrash⟩

/-- An append to a log file, when every end of the writer is covered. -/
theorem triple_appendWal {site : Site} {id : UInt32} {m : WriterM Status Unit} {b : List UInt8}
    {Q : Unit → Engine ω → Disk φ → Prop} (hb : (d.wals id).getD [] = b)
    (h : ∀ room error, Ends (fun _ (file : Writer Status) => Q () e (d.setWal id (some file.bytes)))
      (fun file => Reported room ∧ ((∃ n s, P site (.err n s)) → E e (d.setWal id (some file.bytes))))
      (fun file => Lost room ∧ C e (d.setWal id (some file.bytes))) (m ⟨b, b.length, room, error⟩)) :
    Triple P (appendWal site id m) e d Q E C := by
  intro f hf
  have hpop := hf.pop e d site
  unfold appendWal
  subst hb
  have h' := h (World.fault ⟨e, d, f⟩ site).cut (World.fault ⟨e, d, f⟩ site).error
  match hr : m ⟨(d.wals id).getD [], ((d.wals id).getD []).length, (World.fault ⟨e, d, f⟩ site).cut,
      (World.fault ⟨e, d, f⟩ site).error⟩ with
  | (.ok u, file) =>
    rw [hr] at h'
    exact ⟨hpop, h'⟩
  | (.err s, file) =>
    rw [hr] at h'
    obtain ⟨⟨c, hc, hcrash⟩, he⟩ := h'
    refine ⟨hpop, he ?_⟩
    cases hfault : World.fault ⟨e, d, f⟩ site with
    | none => rw [hfault] at hc; cases hc
    | err n x => exact ⟨n, x, hf.fault hfault (by simp)⟩
    | crash n =>
      rw [hfault] at hc
      cases hc
      cases hcrash
  | (.crash, file) =>
    rw [hr] at h'
    obtain ⟨⟨c, hc, hcrash⟩, h'⟩ := h'
    refine ⟨?_, h'⟩
    cases hfault : World.fault ⟨e, d, f⟩ site with
    | none => rw [hfault] at hc; cases hc
    | crash n => exact ⟨site, n, hf.fault hfault (by simp)⟩
    | err n x =>
      rw [hfault] at hc
      cases hc
      cases hcrash

/-- A program on the table files, at a site that permits every fault. -/
theorem triple_onTables {site : Site} (hP : ∀ x, P site x) {m : Prog TableStore Status α}
    (h : ∀ faults, Ends (fun a (s : TableStore) => Q a e { d with tables := s.files })
      (fun s => E e { d with tables := s.files }) (fun s => C e { d with tables := s.files })
      (m ⟨d.tables, faults⟩)) : Triple P (onTables site m) e d Q E C := by
  intro f hf
  have h' := h (f site)
  unfold onTables
  match hr : m ⟨d.tables, f site⟩ with
  | (.ok a, s) =>
    rw [hr] at h'
    exact ⟨hf.update fun x _ => hP x, h'⟩
  | (.err x, s) =>
    rw [hr] at h'
    exact ⟨hf.update fun x _ => hP x, h'⟩
  | (.crash, s) =>
    rw [hr] at h'
    exact ⟨⟨site, 0, hP _⟩, h'⟩

end

/-! ## Logs -/

section

variable {φ ω : Type} {P : Permits} {e : Engine ω} {d : Disk φ} {Q : Unit → Engine ω → Disk φ → Prop}
  {E C : Engine ω → Disk φ → Prop}

@[simp] theorem Disk.setWal_setWal (d : Disk φ) (id : UInt32) (a b : Option (List UInt8)) :
    (d.setWal id a).setWal id b = d.setWal id b := by
  simp [Disk.setWal]

@[simp] theorem Disk.setWal_self (d : Disk φ) (id : UInt32) : d.setWal id (d.wals id) = d := by
  simp [Disk.setWal]

@[simp] theorem Disk.setWal_wals (d : Disk φ) (id : UInt32) (b : Option (List UInt8)) :
    (d.setWal id b).wals id = b := by
  simp [Disk.setWal]

theorem Disk.setWal_wals_ne (d : Disk φ) {id id' : UInt32} (h : id' ≠ id) (b : Option (List UInt8)) :
    (d.setWal id b).wals id' = d.wals id' := by
  simp [Disk.setWal, h]

@[simp] theorem Disk.setWal_tables (d : Disk φ) (id : UInt32) (b : Option (List UInt8)) :
    (d.setWal id b).tables = d.tables := rfl

@[simp] theorem Disk.setWal_manifest (d : Disk φ) (id : UInt32) (b : Option (List UInt8)) :
    (d.setWal id b).manifest = d.manifest := rfl

@[simp] theorem Disk.setWal_dir (d : Disk φ) (id : UInt32) (b : Option (List UInt8)) :
    (d.setWal id b).dir = d.dir := rfl

theorem triple_removeWal {site : Site} {id : UInt32} (hok : Q () e (d.setWal id none))
    (herr : (∃ n s, P site (.err n s)) → ∀ b, E e (d.setWal id b)) (hcrash : ∀ b, C e (d.setWal id b)) :
    Triple P (fileOp site fun d => d.setWal id none) e d Q E C := by
  refine triple_fileOp hok (fun n s h => ⟨?_, herr ⟨n, s, h⟩ none⟩) ⟨?_, hcrash none⟩
  · have h' := herr ⟨n, s, h⟩ (d.wals id)
    rwa [Disk.setWal_self] at h'
  · have h' := hcrash (d.wals id)
    rwa [Disk.setWal_self] at h'

variable [Zlib]

/-- A lost process leaves the start of a header. -/
theorem triple_createWal_torn {site : Site} {id : UInt32} {startSeq : UInt64}
    {Q : WALHandle → Engine ω → Disk φ → Prop}
    (hok : ∀ b, Writable b id [] → Q ⟨id, true⟩ e (d.setWal id (some b)))
    (herr : (∃ n s, P site (.err n s)) → ∀ b, E e (d.setWal id b)) (hstay : C e d)
      (hgone : C e (d.setWal id none))
    (hcrash : ∀ b, b <+: (WALFileHeader.create id startSeq).bytes → C e (d.setWal id (some b))) :
    Triple P (createWal site id startSeq) e d Q E C := by
  unfold createWal
  refine Triple.bind (Q := fun _ e' d' => e' = e ∧ d' = d.setWal id none) ?_ ?_
  · refine triple_fileOp ⟨rfl, rfl⟩ (fun n s h => ⟨?_, herr ⟨n, s, h⟩ none⟩) ⟨hstay, hgone⟩
    have h' := herr ⟨n, s, h⟩ (d.wals id)
    rwa [Disk.setWal_self] at h'
  rintro _ e₁ d₁ ⟨rfl, rfl⟩
  refine Triple.bind (Q := fun _ e' d' => e' = e₁ ∧ d' = d.setWal id (some [])) ?_ ?_
  · refine triple_fileOp ⟨rfl, by simp⟩ (fun n s h => ?_) ?_
    · simp only [Disk.setWal_setWal]
      exact ⟨herr ⟨n, s, h⟩ _, herr ⟨n, s, h⟩ _⟩
    · simp only [Disk.setWal_setWal]
      exact ⟨hgone, hcrash [] List.nil_prefix⟩
  rintro _ e₂ d₂ ⟨rfl, rfl⟩
  refine Triple.bind (Q := fun _ e' d' => e' = e₂ ∧
    d' = d.setWal id (some (WALFileHeader.create id startSeq).bytes)) ?_ ?_
  · refine triple_appendWal (b := []) (by simp) fun room error => ?_
    refine (create_ends id startSeq room error).mono ?_ ?_ ?_
    · intro _ file hfile
      rw [Disk.setWal_setWal, hfile]
      exact ⟨rfl, rfl⟩
    · intro file hr
      refine ⟨hr, fun hp => ?_⟩
      rw [Disk.setWal_setWal]
      exact herr hp _
    · rintro file ⟨hl, hpre⟩
      rw [Disk.setWal_setWal]
      exact ⟨hl, hcrash _ hpre⟩
  rintro _ e₃ d₃ ⟨rfl, rfl⟩
  refine Triple.bind (Q := fun _ e' d' => e' = e₃ ∧
    d' = d.setWal id (some (WALFileHeader.create id startSeq).bytes)) ?_ ?_
  · exact triple_touch ⟨rfl, rfl⟩ (fun n s h => herr ⟨n, s, h⟩ _) (hcrash _ (List.prefix_refl _))
  rintro _ e₄ d₄ ⟨rfl, rfl⟩
  exact triple_pure (hok _ (writable_header id startSeq))

theorem triple_createWal {site : Site} {id : UInt32} {startSeq : UInt64}
    {Q : WALHandle → Engine ω → Disk φ → Prop}
    (hok : ∀ b, Writable b id [] → Q ⟨id, true⟩ e (d.setWal id (some b)))
    (herr : (∃ n s, P site (.err n s)) → ∀ b, E e (d.setWal id b)) (hcrash : ∀ b, C e (d.setWal id b)) :
    Triple P (createWal site id startSeq) e d Q E C := by
  refine triple_createWal_torn hok herr ?_ (hcrash none) fun b _ => hcrash (some b)
  have h' := hcrash (d.wals id)
  rwa [Disk.setWal_self] at h'

theorem triple_writeWal {site : Site} {id : UInt32} {b : List UInt8} {rs : List InternalRecord} {r : InternalRecord}
    (hb : d.wals id = some b) (hw : Writable b id rs) (ht : r.type.isValid = true)
    (hok : ∀ b', Writable b' id (rs ++ [r]) → Q () e (d.setWal id (some b')))
    (herr : (∃ n s, P site (.err n s)) → ∀ b', Readable b' id rs ∨ Writable b' id (rs ++ [r]) →
      E e (d.setWal id (some b')))
    (hcrash : ∀ b', Readable b' id rs ∨ Writable b' id (rs ++ [r]) → C e (d.setWal id (some b'))) :
    Triple P (writeWal site ⟨id, true⟩ r) e d Q E C := by
  refine triple_ensure (fun h => by cases h) fun _ => ?_
  refine triple_appendWal (b := b) (by simp [hb]) fun room error => ?_
  refine (hw.write ht room error).mono ?_ ?_ ?_
  · intro _ file hf
    exact hok _ hf
  · intro file hf
    exact ⟨hf.1, fun hp => herr hp _ hf.2⟩
  · intro file hf
    exact ⟨hf.1, hcrash _ hf.2⟩

omit [Zlib] in
theorem triple_syncWal {site : Site} {id : UInt32} (hok : Q () e d)
    (herr : (∃ n s, P site (.err n s)) → E e d) (hcrash : C e d) :
    Triple P (syncWal site ⟨id, true⟩) e d Q E C :=
  triple_ensure (fun h => by cases h) fun _ => triple_touch hok (fun n s h => herr ⟨n, s, h⟩) hcrash

end

/-! ## The manifest -/

section

variable [Zlib] {P : Permits} {e : Engine LogObject} {d : Disk EditLog}
  {Q : Unit → Engine LogObject → Disk EditLog → Prop} {E C : Engine LogObject → Disk EditLog → Prop}

/-- The disk with one more edit in its manifest. -/
def Disk.logged (d : Disk EditLog) (edit : VersionEdit) : Disk EditLog :=
  { d with manifest := some ⟨EditLog.editsOf d.manifest ++ [edit]⟩ }

theorem triple_commit {site : Site} {edit : VersionEdit} {object : LogObject} (hm : e.manifest = some object)
    (hrefused : object.writePoisoned = true → E e d)
    (hrejected : object.writePoisoned = false →
      (∀ v, stageApply e.levels e.counters edit ≠ .ok v) ∨ (∃ s, edit.prepare = .error s) → E e d)
    (hok : object.writePoisoned = false → ∀ lm c, stageApply e.levels e.counters edit = .ok (lm, c) →
      Q () { e with levels := lm, counters := c } (d.logged edit))
    (herr : object.writePoisoned = false → ∀ lm c, stageApply e.levels e.counters edit = .ok (lm, c) →
      ∀ n s, P site (.err n s) →
        E { e with manifest := some ⟨true⟩ } (if n = 0 then d else d.logged edit))
    (hcrash : object.writePoisoned = false → ∀ lm c, stageApply e.levels e.counters edit = .ok (lm, c) →
      C e d ∧ C e (d.logged edit)) :
    Triple P (commitManifest site edit) e d Q E C := by
  intro f hf
  have hpop := hf.pop e d site
  have heng : ∀ lm c, { e with manifest := some object, levels := lm, counters := c } =
      { e with levels := lm, counters := c } := by
    intro lm c
    rw [← hm]
  have hself : { e with manifest := some object, levels := e.levels, counters := e.counters } = e := by
    rw [← hm]
  unfold commitManifest onManifest
  simp only [World.pop, hm, ManifestStore.commit]
  cases hpo : object.writePoisoned with
  | true =>
    simp only [if_true, hself]
    exact ⟨hpop, hrefused hpo⟩
  | false =>
    simp only [Bool.false_eq_true, if_false]
    cases hst : stageApply e.levels e.counters edit with
    | error s =>
      simp only [hself]
      exact ⟨hpop, hrejected hpo (.inl fun v hv => by rw [hst] at hv; cases hv)⟩
    | ok v =>
      obtain ⟨lm, c⟩ := v
      cases hprep : edit.prepare with
      | error s =>
        simp only [hself]
        exact ⟨hpop, hrejected hpo (.inr ⟨s, hprep⟩)⟩
      | ok header =>
        cases hfault : World.fault ⟨e, d, f⟩ site with
        | none =>
          simp only [heng]
          exact ⟨hpop, hok hpo lm c hst⟩
        | err n s =>
          have h' := herr hpo lm c hst n s (hf.fault hfault (by simp))
          by_cases hn : n = 0
          · rw [if_pos hn] at h'
            simp only [EditLog.append, if_pos hn]
            exact ⟨hpop, h'⟩
          · rw [if_neg hn] at h'
            simp only [EditLog.append, if_neg hn]
            exact ⟨hpop, h'⟩
        | crash n =>
          obtain ⟨h1, h2⟩ := hcrash hpo lm c hst
          have hl : Lossy P := ⟨site, n, hf.fault hfault (by simp)⟩
          by_cases hn : n = 0
          · simp only [hself, EditLog.append, if_pos hn]
            exact ⟨hl, h1⟩
          · simp only [hself, EditLog.append, if_neg hn]
            exact ⟨hl, h2⟩

end

end Kvdb
