import LatLng.Core.Commit

/-! Logs as this program writes them: every entry is an encoded record that replay can
apply, and what it does does not depend on when it is applied. -/

namespace LatLng.Core

open Geo Geofence Storage List

variable {lib : Lib}

/-- The command counts a time span from the moment it is applied. Only logs of older
versions hold such commands. -/
def Command.relative : Command → Bool
  | .set _ => true
  | .expire _ _ _ => true
  | _ => false

def LogRecord.relative : LogRecord → Bool
  | .command c => c.relative
  | _ => false

theorem View.apply_of_absolute {c : Command} (h : c.relative = false) (v : View)
    (now now' : Nat) : v.apply lib now c = v.apply lib now' c := by
  cases c with
  | set req => cases h
  | expire collection id seconds => cases h
  | _ => simp only [View.apply]

theorem View.applyRecord_of_absolute {r : LogRecord} (h : r.relative = false) (v : View)
    (now now' : Nat) : v.applyRecord lib now r = v.applyRecord lib now' r := by
  cases r with
  | command c => exact View.apply_of_absolute h v now now'
  | _ => rfl

theorem Intends.absolute {v : View} {aim : Aim} {commands : List Command} {effect : Effect}
    (h : Intends lib v aim commands effect) : ∀ c ∈ commands, c.relative = false := by
  intro c hc
  cases h with
  | jset hget hgeo hedit haim | jdel hget hgeo hedit haim =>
    rcases mem_cons.1 hc with rfl | hc
    · rfl
    · split at hc
      · cases mem_singleton.1 hc
        rfl
      · cases hc
  | _ =>
    cases mem_singleton.1 hc
    rfl

variable (lib) in
structure LogRecord.Sound (record : LogRecord) : Prop where
  replayable : record.Replayable lib
  absolute : record.relative = false

variable (lib) in
def Applicable (entry : StorageEntry) : Prop :=
  0 < entry.sequence ∧
    ∃ record, decodeLogRecord lib entry.command = .ok record ∧ record.Sound lib

variable (lib) in
def Written (entry : StorageEntry) : Prop :=
  ∃ record : LogRecord, lib.codec.toJson record = .ok entry.command ∧
    decodeLogRecord lib entry.command = .ok record ∧ record.Sound lib

variable (lib) in
def View.applyEntry (v : View) (entry : StorageEntry) : View :=
  match decodeLogRecord lib entry.command with
  | .ok record => v.applyRecord lib 0 record
  | .error _ => v

variable (lib) in
def logView (entries : List StorageEntry) : View := entries.foldl (View.applyEntry lib) {}

theorem logView_append (entries batch : List StorageEntry) :
    logView lib (entries ++ batch) = batch.foldl (View.applyEntry lib) (logView lib entries) := by
  rw [logView, foldl_append, logView]

variable {entries : List StorageEntry}

theorem logView_congr {entries' : List StorageEntry}
    (h : entries.map StorageEntry.command = entries'.map StorageEntry.command) :
    logView lib entries = logView lib entries' := by
  have hfold : ∀ (entries : List StorageEntry), logView lib entries =
      (entries.map StorageEntry.command).foldl
        (fun v command => v.applyEntry lib { sequence := 0, timestampNs := 0, command }) {} := by
    intro entries
    rw [logView, foldl_map]
    rfl
  rw [hfold, hfold, h]

variable {records : List LogRecord}

theorem Holds.foldl_applyEntry (h : Holds lib entries records) (v : View) :
    entries.foldl (View.applyEntry lib) v = records.foldl (View.applyRecord lib 0) v := by
  have hfold : ∀ (entries : List StorageEntry) (v : View), entries.foldl (View.applyEntry lib) v =
      (entries.map fun entry => decodeLogRecord lib entry.command).foldl
        (fun v result => match result with
          | .ok record => v.applyRecord lib 0 record
          | .error _ => v) v := by
    intro entries v
    rw [foldl_map]
    rfl
  rw [hfold, h, foldl_map]

theorem exists_holds {P : LogRecord → Prop}
    (h : ∀ entry ∈ entries, ∃ record, decodeLogRecord lib entry.command = .ok record ∧ P record) :
    ∃ records, Holds lib entries records ∧ ∀ record ∈ records, P record := by
  induction entries with
  | nil => exact ⟨[], rfl, fun _ hr => absurd hr not_mem_nil⟩
  | cons entry entries ih =>
    obtain ⟨record, hdecode, hrecord⟩ := h entry mem_cons_self
    obtain ⟨records, hholds, hrecords⟩ := ih fun e he => h e (mem_cons_of_mem _ he)
    refine ⟨record :: records, ?_, forall_mem_cons.2 ⟨hrecord, hrecords⟩⟩
    rw [Holds, map_cons, map_cons, hdecode, hholds]

theorem foldl_applyRecord_of_absolute (h : ∀ record ∈ records, record.relative = false) (v : View)
    (now now' : Nat) :
    records.foldl (View.applyRecord lib now) v = records.foldl (View.applyRecord lib now') v := by
  induction records generalizing v with
  | nil => rw [foldl_nil, foldl_nil]
  | cons record records ih =>
    have hfirst : v.applyRecord lib now record = v.applyRecord lib now' record :=
      View.applyRecord_of_absolute (h record mem_cons_self) v now now'
    rw [foldl_cons, foldl_cons, hfirst]
    exact ih (fun r hr => h r (mem_cons_of_mem _ hr)) _

theorem applyPersistedEntries_sound
    (h : ∀ entry ∈ entries, ∃ record, decodeLogRecord lib entry.command = .ok record ∧
      record.Sound lib) (now : Nat) (s : Store) :
    (applyPersistedEntries lib now s entries).1 = .ok () ∧
      (applyPersistedEntries lib now s entries).2.view =
        entries.foldl (View.applyEntry lib) s.view := by
  obtain ⟨records, hholds, hsound⟩ := exists_holds h
  obtain ⟨hok, hview⟩ := applyPersistedEntries_ok now hholds (fun r hr => (hsound r hr).replayable) s
  refine ⟨hok, ?_⟩
  rw [hview, hholds.foldl_applyEntry]
  exact foldl_applyRecord_of_absolute (fun r hr => (hsound r hr).absolute) s.view now 0

theorem Written.decode {entry : StorageEntry} (h : Written lib entry) :
    ∃ record, decodeLogRecord lib entry.command = .ok record ∧ record.Sound lib :=
  h.imp fun _ => And.right

/-! ### Encoded batches -/

theorem encodeEntries_written {nowNs : Nat} {sequences : List Nat}
    (hread : ∀ record ∈ records, record.Readable lib)
    (hsound : ∀ record ∈ records, record.Sound lib)
    (h : encodeEntriesForSequences lib nowNs records sequences = .ok entries) :
    ∀ entry ∈ entries, Written lib entry := by
  intro entry he
  obtain ⟨record, hrecord, hjson⟩ := mem_encodeEntries h he
  exact ⟨record, hjson, hread record hrecord _ hjson, hsound record hrecord⟩

end LatLng.Core
