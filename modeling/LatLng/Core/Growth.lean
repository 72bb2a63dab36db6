import LatLng.Core.Admin
import LatLng.Core.Written

/-! What calls append to the log: commands, and webhook jobs that are named after their
sequence number. -/

namespace LatLng.Core

open Geo Geofence Storage List

variable {lib : Lib}

/-! ### The records of a plan -/

structure WebhookEnqueueRecord.Untried (r : WebhookEnqueueRecord) : Prop where
  unused : r.attemptsUsed = 0
  allowed : 0 < r.maxAttempts
  bounded : r.maxAttempts < 2 ^ 32

variable (lib) in
def Command.Checked : Command → Prop
  | .set req => req.object.validate lib.toGeoLib = .ok ()
  | .setPersisted record => record.object.validate lib.toGeoLib = .ok ()
  | .setHook _ _ d => Db.validateGeofenceDef lib d = .ok ()
  | .setChannel _ d => Db.validateGeofenceDef lib d = .ok ()
  | _ => True

variable (lib) in
def Batch.Fresh : Batch → Prop
  | .command c webhooks => c.Checked lib ∧ ∀ r ∈ webhooks, r.Untried
  | .records rs => ∀ r ∈ rs, ∃ c, r = .command c ∧ c.Checked lib

variable (lib) in
def Plan.Fresh : Plan → Prop
  | .done _ => True
  | .write w => w.batch.Fresh lib

theorem forall_of_mapM {α β ε : Type} {f : α → Except ε β} {P : β → Prop}
    (hf : ∀ a b, f a = .ok b → P b) {as : List α} {bs : List β} (h : as.mapM f = .ok bs) :
    ∀ b ∈ bs, P b := by
  induction as generalizing bs with
  | nil =>
    cases h
    exact fun _ hb => absurd hb not_mem_nil
  | cons a as ih =>
    rw [mapM_cons] at h
    cases hfirst : f a with
    | error e =>
      rw [hfirst] at h
      cases h
    | ok first =>
      cases hrest : as.mapM f with
      | error e =>
        rw [hfirst, hrest] at h
        cases h
      | ok rest =>
        rw [hfirst, hrest] at h
        cases h
        intro b hb
        rcases mem_cons.1 hb with rfl | hb
        · exact hf a b hfirst
        · exact ih hrest b hb

namespace Db

variable {webhooks : List WebhookEnqueueRecord}

theorem webhookRecords_fresh {db : Db} {ctx : Ctx} {prepared : PreparedMutation}
    (h : db.webhookRecordsForPrepared ctx prepared = .ok webhooks) : ∀ r ∈ webhooks, r.Untried := by
  refine forall_of_mapM (fun event r hr => ?_) h
  dsimp only at hr
  split at hr
  · cases hr
  · cases hr
    exact ⟨rfl, Nat.lt_min.2 ⟨Nat.succ_pos _, by decide⟩, (Nat.min_le_right _ _).trans_lt (by decide)⟩

theorem planEvents_fresh {db : Db} {ctx : Ctx} {events : List MutationEvent}
    {planned : List PreparedMutation} (h : db.planEvents lib ctx events = .ok (planned, webhooks)) :
    ∀ r ∈ webhooks, r.Untried := by
  induction events generalizing planned webhooks with
  | nil =>
    cases h
    exact fun _ hr => absurd hr not_mem_nil
  | cons event events ih =>
    rw [planEvents] at h
    split at h
    · cases h
    next first hfirst =>
      split at h
      · cases h
      next prepared more hmore =>
        cases h
        intro r hr
        rcases mem_append.1 hr with hr | hr
        · exact webhookRecords_fresh hfirst r hr
        · exact ih hmore r hr

end Db

theorem Request.Planned.fresh {db : Db} {ctx : Ctx} {shared : Bool} {request : Request} {w : Write}
    (h : request.Planned lib db ctx shared (.write w))
    (hvalid : ∀ req, request = .set req → req.object.validate lib.toGeoLib = .ok ()) :
    w.batch.Fresh lib := by
  have hsingle : ∀ {command : Command}, command.Checked lib →
      (Batch.records [.command command]).Fresh lib :=
    fun hc r hr => ⟨_, mem_singleton.1 hr, hc⟩
  cases h with
  | edit h hread hwebhooks =>
    refine ⟨?_, Db.webhookRecords_fresh hwebhooks⟩
    cases h with
    | set hgo hobject => exact hvalid _ rfl
    | _ => trivial
  | record h =>
    refine hsingle ?_
    cases h with
    | set hobject halways hvolatile hunseen => exact hvalid _ rfl
    | setchan name hd | sethook name endpoint hd => exact hd
    | _ => trivial
  | @json _ c id _ _ _ object _ _ _ _ h hc ho hgeo hchange =>
    intro r hr
    rcases mem_cons.1 hr with rfl | hr
    · exact ⟨_, rfl, by cases h <;> trivial⟩
    · split at hr
      · exact ⟨_, mem_singleton.1 hr, trivial⟩
      · cases hr
  | drop hc h => exact ⟨trivial, Db.planEvents_fresh h⟩

theorem Db.delExclusive_fresh (db : Db) (ctx : Ctx) (collection id : String) :
    (db.delExclusive lib ctx collection id).Fresh lib := by
  have hplanned := Request.exclusivePlan_planned lib db ctx (.del collection id)
  change Request.Planned lib db ctx false _ (db.delExclusive lib ctx collection id) at hplanned
  cases hplan : db.delExclusive lib ctx collection id with
  | done result => trivial
  | write w =>
    rw [hplan] at hplanned
    exact hplanned.fresh nofun

variable (lib) in
theorem Request.plan_fresh (db : Db) (ctx : Ctx) (request : Request) :
    (request.plan lib db ctx).Fresh lib := by
  obtain ⟨shared, hplanned⟩ := request.plan_planned lib db ctx
  cases hplan : request.plan lib db ctx with
  | done result => trivial
  | write w =>
    rw [hplan] at hplanned
    refine hplanned.fresh fun req hreq => ?_
    subst hreq
    exact Request.plan_valid hplan

/-! ### The entries of a call -/

theorem opaqueWebhookJobId_injective (hids : Function.Injective (lib.opaqueWebhookId "job")) :
    Function.Injective (opaqueWebhookJobId lib) := by
  intro m n hmn
  have hseed := hids hmn
  simp only [toString, String.append_right_inj] at hseed
  have hdigits : Nat.toDigits 10 m = Nat.toDigits 10 n := by
    rw [← Nat.toList_repr, ← Nat.toList_repr, hseed]
  rw [← @Nat.ofDigitChars_ten_toDigits m, hdigits, Nat.ofDigitChars_ten_toDigits]

variable (lib) in
/-- A record as calls append it: a command that was checked, or a new job named after the number
of its entry. -/
def LogRecord.Issued (record : LogRecord) (sequence : Nat) : Prop :=
  (∃ c, record = .command c ∧ c.Checked lib) ∨
    ∃ r, record = .webhookEnqueue r ∧ r.jobId = opaqueWebhookJobId lib sequence ∧ r.Untried

variable (lib) in
def Issued (entry : StorageEntry) : Prop :=
  ∃ record, lib.codec.toJson record = .ok entry.command ∧ record.Issued lib entry.sequence

structure Db.Extends (db : Db) (P : StorageEntry → Prop) (db' : Db) : Prop where
  sequence : db.nextSequence ≤ db'.nextSequence
  stores : db'.storage.storesCommandLog = db.storage.storesCommandLog
  log : ∃ added, db'.storage.entries = db.storage.entries ++ added ∧
    (Increasing db.storage.entries → Increasing db'.storage.entries) ∧
    ∀ entry ∈ added, db.nextSequence < entry.sequence ∧ entry.sequence ≤ db'.nextSequence ∧
      P entry

namespace Db.Extends

variable {P Q : StorageEntry → Prop} {db db' db'' : Db}

theorem refl (db : Db) : db.Extends P db :=
  ⟨le_rfl, rfl, [], (append_nil _).symm, id, fun _ h => absurd h not_mem_nil⟩

theorem trans (h : db.Extends P db') (h' : db'.Extends P db'') : db.Extends P db'' := by
  obtain ⟨added, hlog, hinc, hadded⟩ := h.log
  obtain ⟨more, hlog', hinc', hmore⟩ := h'.log
  refine ⟨h.sequence.trans h'.sequence, h'.stores.trans h.stores, added ++ more, ?_,
    fun hs => hinc' (hinc hs), ?_⟩
  · rw [hlog', hlog, append_assoc]
  · intro entry he
    rcases mem_append.1 he with he | he
    · obtain ⟨hlt, hle, hP⟩ := hadded entry he
      exact ⟨hlt, hle.trans h'.sequence, hP⟩
    · obtain ⟨hlt, hle, hP⟩ := hmore entry he
      exact ⟨h.sequence.trans_lt hlt, hle, hP⟩

theorem mono (h : db.Extends P db') (hPQ : ∀ entry, P entry → Q entry) : db.Extends Q db' := by
  obtain ⟨added, hlog, hinc, hadded⟩ := h.log
  refine ⟨h.sequence, h.stores, added, hlog, hinc, fun entry he => ?_⟩
  obtain ⟨hlt, hle, hP⟩ := hadded entry he
  exact ⟨hlt, hle, hPQ entry hP⟩

theorem of_unlogged (h : db.Unlogged db') : db.Extends P db' :=
  ⟨h.sequence, h.log.stores, [], by rw [h.log.entries, append_nil],
    by rw [h.log.entries]; exact id, fun _ he => absurd he not_mem_nil⟩

theorem of_logged {entries : List StorageEntry} (h : db.Logged entries db')
    (hP : ∀ entry ∈ entries, P entry) : db.Extends P db' := by
  refine ⟨by rw [h.sequence]; exact Nat.le_add_right _ _, h.stores, entries, h.log, fun hs => ?_,
    fun entry he => ?_⟩
  · rw [h.log]
    exact (increasing_append_iff hs).2 ⟨h.increasing, h.after⟩
  · have hmem := mem_map_of_mem (f := StorageEntry.sequence) he
    rw [h.numbered] at hmem
    obtain ⟨hlo, hhi⟩ := mem_range'_1.1 hmem
    exact ⟨by omega, by rw [h.sequence]; omega, hP entry he⟩

theorem lt_of_mem (h : db.Extends P db') {n : Nat} (hn : n ≤ db.nextSequence) {entry : StorageEntry}
    (he : entry ∈ db'.storage.entries) : entry ∈ db.storage.entries ∨ n < entry.sequence := by
  obtain ⟨added, hlog, -, hadded⟩ := h.log
  rw [hlog] at he
  rcases mem_append.1 he with he | he
  · exact .inl he
  · exact .inr (hn.trans_lt (hadded entry he).1)

end Db.Extends

variable (lib) in
abbrev Db.Grows (db db' : Db) : Prop := db.Extends (Issued lib) db'

namespace Db.Grows

variable {db db' : Db}

theorem issued_of_encode {nowNs : Nat} {records : List LogRecord} {sequences : List Nat}
    {entries : List StorageEntry}
    (h : encodeEntriesForSequences lib nowNs records sequences = .ok entries)
    (hrecords : ∀ pair ∈ records.zip sequences, pair.1.Issued lib pair.2) :
    ∀ entry ∈ entries, Issued lib entry := by
  induction records generalizing sequences entries with
  | nil =>
    cases h
    exact fun _ he => absurd he not_mem_nil
  | cons record records ih =>
    cases sequences with
    | nil =>
      cases h
      exact fun _ he => absurd he not_mem_nil
    | cons n ns =>
      obtain ⟨command, rest, hr, hrest, rfl⟩ := encodeEntriesForSequences_cons h
      intro entry he
      rcases mem_cons.1 he with rfl | he
      · exact ⟨record, toJson_of_encode hr, hrecords (record, n) mem_cons_self⟩
      · exact ih hrest (fun pair hp => hrecords pair (mem_cons_of_mem _ hp)) entry he

theorem fresh_numbered {batch : Batch} (h : batch.Fresh lib) (sequences : List Nat) :
    ∀ pair ∈ (batch.numbered lib sequences).zip sequences, pair.1.Issued lib pair.2 := by
  cases batch with
  | records rs =>
    intro pair hp
    exact .inl (h pair.1 (of_mem_zip hp).1)
  | command c webhooks =>
    cases sequences with
    | nil =>
      intro pair hp
      cases hp
    | cons n ns =>
      intro pair hp
      rcases mem_cons.1 hp with rfl | hp
      · exact .inl ⟨c, rfl, h.1⟩
      · -- the k-th job is named after the k-th number
        change pair ∈ (mapIdx _ (ns.zip webhooks)).zip ns at hp
        obtain ⟨k, hk, rfl⟩ := mem_iff_getElem.1 hp
        have hw : k < webhooks.length := by
          rw [length_zip, length_mapIdx, length_zip] at hk
          omega
        simp only [getElem_zip, getElem_mapIdx]
        have huntried := h.2 webhooks[k] (getElem_mem hw)
        exact .inr ⟨_, rfl, rfl, huntried.unused, huntried.allowed, huntried.bounded⟩

theorem persisted {ctx : Ctx} {batch : Batch} (hfresh : batch.Fresh lib) {db' : Db}
    (hp : db.Persisted lib ctx batch db') : db.Grows lib db' := by
  rcases hp with ⟨-, hun⟩ | ⟨-, entries, hlogged, hencode⟩
  · exact .of_unlogged hun
  · exact .of_logged hlogged (issued_of_encode hencode (fresh_numbered hfresh _))

theorem finish (ctx : Ctx) {plan : Plan} (hfresh : plan.Fresh lib) :
    db.Grows lib (db.finish lib ctx plan).2 := by
  cases plan with
  | done result => exact .refl db
  | write w =>
    rw [Db.finish]
    rcases db.commit_cases lib ctx w with ⟨e, -, hun, -⟩ | ⟨db', hp, hcommit⟩
    · exact .of_unlogged hun
    · have hgrows := persisted hfresh hp
      rw [hcommit]
      exact ⟨hgrows.sequence, hgrows.stores, hgrows.log⟩

theorem perform (ctx : Ctx) (request : Request) : db.Grows lib (db.perform lib ctx request).2 :=
  finish ctx (request.plan_fresh lib db ctx)

theorem delete {start : Db} (ctx : Ctx) (db : Db) (collection id : String)
    (h : start.Grows lib db) : Ends (start.Grows lib) (start.Grows lib)
      (db.finish lib ctx (db.delExclusive lib ctx collection id)) := by
  have hfinish := h.trans (finish ctx (@Db.delExclusive_fresh lib db ctx collection id))
  exact .of_snd hfinish

theorem pdel (ctx : Ctx) (collection pattern : String) :
    db.Grows lib (db.pdel lib ctx collection pattern).2 :=
  (Db.pdel_ends (fun db => delete ctx db collection) (fun _ h => h) (.refl db) pattern).same

theorem expireDue (ctx : Ctx) (nowMs max : Nat) : db.Grows lib (db.expireDue lib ctx nowMs max).2 :=
  (Db.expireDue_ends (delete ctx) (fun _ _ h => ⟨h.sequence, h.stores, h.log⟩) (.refl db) nowMs
    max).same

end Db.Grows

variable (lib) in
/-- A flush that fails has at most appended its record; one that succeeds leaves no log, and
its number is behind everything that was there. -/
theorem Db.flushdb_cases (db : Db) (ctx : Ctx) :
    (∃ e, (db.flushdb lib ctx).1 = .error e ∧ db.Grows lib (db.flushdb lib ctx).2) ∨
    ((db.flushdb lib ctx).1 = .ok () ∧ (db.flushdb lib ctx).2.storage.entries = [] ∧
      (db.flushdb lib ctx).2.storage.storesCommandLog = db.storage.storesCommandLog ∧
      db.nextSequence ≤ (db.flushdb lib ctx).2.nextSequence ∧
      (db.storage.storesCommandLog → ∀ last ∈ db.storage.entries.getLast?,
        last.sequence < (db.flushdb lib ctx).2.nextSequence)) := by
  rcases db.flushdb_steps lib ctx with ⟨e, he, hun⟩ | ⟨db', hp, -, hr⟩
  · exact .inl ⟨e, he, .of_unlogged hun⟩
  have hfresh : (Batch.records [.command .flushDb]).Fresh lib :=
    fun _ hr => ⟨_, mem_singleton.1 hr, trivial⟩
  have hgrows := Grows.persisted hfresh hp
  rw [hr]
  rcases db'.storage.snapshot_cases [] with ⟨e, herr, hsame⟩ | ⟨hok, hlog, hstores, -⟩
  · refine .inl ⟨.storage e, by rw [herr]; rfl, hgrows.sequence, hsame.stores.trans hgrows.stores, ?_⟩
    obtain ⟨added, hadded, hinc, hissued⟩ := hgrows.log
    exact ⟨added, hsame.entries.trans hadded, by rw [hsame.entries]; exact hinc, hissued⟩
  · refine .inr ⟨by rw [hok]; rfl, hlog, hstores.trans hgrows.stores, hgrows.sequence,
      fun hs last hlast => ?_⟩
    rcases hp with ⟨hno, -⟩ | ⟨-, entries, hlogged, hencode⟩
    · rw [hs] at hno
      cases hno
    · obtain ⟨command, rest, -, hrest, rfl⟩ := encodeEntriesForSequences_cons hencode
      cases hrest
      have hlt := hlogged.after last hlast _ mem_cons_self
      rw [hlogged.sequence]
      exact hlt

theorem build_log {ctx : Ctx} {storage : LogStore} {config : Config} {db : Db}
    (h : (build lib ctx storage config).1 = .ok db) :
    storage.SameLog db.storage ∧
      db.nextSequence = lastSequence (storage.entries.filter fun entry => 0 < entry.sequence) := by
  obtain ⟨s, -, rfl⟩ := build_eq_ok h
  exact ⟨storage.sameLog_fault, rfl⟩

variable (lib) in
theorem Db.appendLogRecord_extends (db : Db) (ctx : Ctx) (record : LogRecord) :
    db.Extends (fun entry => lib.codec.toJson record = .ok entry.command)
      (db.appendLogRecords lib ctx [record]).2 := by
  have hcases := db.persist_cases lib ctx (.records [record])
  rw [Db.persist] at hcases
  rcases hcases with ⟨-, -, hun⟩ | ⟨-, -, hun⟩ | ⟨-, -, entries, hlogged, hencode⟩
  · exact .of_unlogged hun
  · exact .of_unlogged hun
  · obtain ⟨command, rest, hr, hrest, rfl⟩ := encodeEntriesForSequences_cons hencode
    cases hrest
    refine .of_logged hlogged fun entry he => ?_
    cases mem_singleton.1 he
    exact toJson_of_encode hr

/-- The calls that clients and the expiry sweep make to change objects, collections and fences. -/
def Call.writes : Call → Bool
  | .request _ => true
  | .pdel _ _ => true
  | .expireDue _ _ => true
  | _ => false

theorem Db.Grows.call {db : Db} {call : Call} (h : call.writes) (ctx : Ctx) :
    db.Grows lib (db.call lib ctx call).2 := by
  cases call with
  | request request => exact perform ctx request
  | pdel collection pattern => exact pdel ctx collection pattern
  | expireDue nowMs max => exact expireDue ctx nowMs max
  | _ => cases h

end LatLng.Core
