import LatLng.Aof.GroupCommit
import LatLng.Aof.TornTail
import LatLng.Lib.TreeMap
import LatLng.Lib.Except

/-! Backing up an append-only file and restoring it. The restored file is put in place before
the number of its entries is compared with the number the backup gives. -/

namespace LatLng.Aof
open Storage Framing

structure AofBackupReport where
  backupPath : String
  sourcePath : String
  entryCount : Nat
  lastSequence : Nat
  checksumHex : String

structure AofRestoreReport where
  backupPath : String
  restoredPath : String
  entryCount : Nat
  lastSequence : Nat
  checksumHex : String

structure AofBackupFile where
  format : String
  version : String
  createdUnixSeconds : Nat
  sourcePath : String
  entryCount : Nat
  firstSequence : Option Nat
  lastSequence : Nat
  checksumHex : String
  entries : List StorageEntry
deriving DecidableEq

def aofBackupFormat : String := "latlng-aof-backup-v1"

/-- The JSON library. A document that cannot be written leaves its first part in the file. -/
structure BackupJson where
  toWriterPretty : AofBackupFile → Except (String × List UInt8) (List UInt8)
  fromReader : List UInt8 → Except String AofBackupFile
  fromReader_toWriterPretty : ∀ {backup bytes}, toWriterPretty backup = .ok bytes →
    fromReader bytes = .ok backup

abbrev Disk := Std.ExtTreeMap String (List UInt8)

/-- The path of the temporary file, and what the system says of a file that is not there. -/
structure System where
  rewritePath : String → String
  notFound : String

variable (deps : Deps) (json : BackupJson) (sys : System)

def encodedPrefix : List StorageEntry → List UInt8
  | [] => []
  | entry :: entries =>
    match deps.serialize (.entry entry) with
    | .error _ => []
    | .ok payload => frame payload ++ encodedPrefix entries

def Disk.rewrite (disk : Disk) (path : String) (entries : List StorageEntry) :
    Except StorageError Unit × Disk :=
  match Aof.rewrite deps entries with
  | .error e => (.error e, disk.insert (sys.rewritePath path) (encodedPrefix deps entries))
  | .ok file => (.ok (), (disk.erase (sys.rewritePath path)).insert path file)

def backupFile (version : String) (createdUnixSeconds : Nat) (sourcePath : String)
    (entries : List StorageEntry) (report : AofIntegrityReport) : AofBackupFile where
  format := aofBackupFormat
  version := version
  createdUnixSeconds := createdUnixSeconds
  sourcePath := sourcePath
  entryCount := report.entryCount
  firstSequence := report.firstSequence
  lastSequence := report.lastSequence
  checksumHex := report.checksumHex
  entries := entries

def backupAof (version : String) (createdUnixSeconds : Nat) (disk : Disk)
    (source destination : String) : Except StorageError AofBackupReport × Disk :=
  match loadEntriesWithReport deps disk[source]? with
  | .error e => (.error e, disk)
  | .ok (entries, report) =>
    match json.toWriterPretty (backupFile version createdUnixSeconds source entries report) with
    | .error (e, written) => (.error (.codec e), disk.insert destination written)
    | .ok bytes =>
      (.ok { backupPath := destination, sourcePath := source, entryCount := report.entryCount
             lastSequence := report.lastSequence, checksumHex := report.checksumHex },
       disk.insert destination bytes)

def checkBackup (backup : AofBackupFile) : Except StorageError Unit :=
  if backup.format ≠ aofBackupFormat then
    .error (.codec s!"unsupported AOF backup format: {backup.format}")
  else match assertStrictlyIncreasing backup.entries with
    | .error e => .error e
    | .ok () =>
      if checksumHex (StorageEntry.checksum deps.md5 backup.entries) ≠ backup.checksumHex then
        .error (.codec "AOF backup checksum does not match entries")
      else .ok ()

def readBackup (disk : Disk) (backupPath : String) : Except StorageError AofBackupFile :=
  match disk[backupPath]? with
  | none => .error (.io sys.notFound)
  | some content =>
    match json.fromReader content with
    | .error e => .error (.codec e)
    | .ok backup => (checkBackup deps backup).map fun _ => backup

def restoreAof (disk : Disk) (backupPath destination : String) (force : Bool) :
    Except StorageError AofRestoreReport × Disk :=
  if disk.contains destination && !force then
    (.error (.message s!"refusing to overwrite existing AOF: {destination}"), disk)
  else match readBackup deps json sys disk backupPath with
    | .error e => (.error e, disk)
    | .ok backup =>
      match disk.rewrite deps sys destination backup.entries with
      | (.error e, disk) => (.error e, disk)
      | (.ok (), disk) =>
        match loadEntriesWithReport deps disk[destination]? with
        | .error e => (.error e, disk)
        | .ok (_, restored) =>
          if restored.checksumHex != backup.checksumHex ||
              restored.entryCount != backup.entryCount then
            (.error (.codec "restored AOF failed post-write validation"), disk)
          else (.ok { backupPath, restoredPath := destination, entryCount := restored.entryCount
                      lastSequence := restored.lastSequence
                      checksumHex := restored.checksumHex }, disk)

variable {deps json sys}

structure Checked (deps : Deps) (backup : AofBackupFile) : Prop where
  format : backup.format = aofBackupFormat
  increasing : Increasing backup.entries
  checksum : checksumHex (StorageEntry.checksum deps.md5 backup.entries) = backup.checksumHex

variable {backup : AofBackupFile} {file : Option (List UInt8)} {es : List StorageEntry}

theorem checkBackup_ok_iff :
    checkBackup deps backup = .ok () ↔ Checked deps backup := by
  unfold checkBackup
  by_cases hformat : backup.format = aofBackupFormat
  · rw [if_neg (not_not.2 hformat)]
    cases hinc : assertStrictlyIncreasing backup.entries with
    | error e =>
      refine iff_of_false nofun fun h => ?_
      rw [(assertStrictlyIncreasing_ok _).2 h.increasing] at hinc
      cases hinc
    | ok u =>
      by_cases hsum : checksumHex (StorageEntry.checksum deps.md5 backup.entries) =
          backup.checksumHex
      · simp only [hsum, ne_eq, not_true_eq_false, if_false, true_iff]
        exact ⟨hformat, (assertStrictlyIncreasing_ok _).1 hinc, hsum⟩
      · simp only [ne_eq, hsum, not_false_eq_true, if_true]
        exact iff_of_false nofun fun h => hsum h.checksum
  · rw [if_pos hformat]
    exact iff_of_false nofun fun h => hformat h.format

def Offers (deps : Deps) (json : BackupJson) (disk : Disk) (backupPath : String)
    (backup : AofBackupFile) : Prop :=
  ∃ content, disk[backupPath]? = some content ∧ json.fromReader content = .ok backup ∧
    Checked deps backup

theorem readBackup_ok_iff {disk : Disk} {backupPath : String} :
    readBackup deps json sys disk backupPath = .ok backup ↔
      Offers deps json disk backupPath backup := by
  unfold readBackup Offers
  cases hcontent : disk[backupPath]? with
  | none =>
    refine iff_of_false nofun ?_
    rintro ⟨content, h, -⟩
    cases h
  | some content =>
    simp only [Option.some.injEq, exists_eq_left']
    cases hparse : json.fromReader content with
    | error e => exact iff_of_false nofun fun h => by cases h.1
    | ok parsed =>
      simp only [Except.ok.injEq]
      cases hcheck : checkBackup deps parsed with
      | error e =>
        refine iff_of_false nofun ?_
        rintro ⟨rfl, h⟩
        rw [checkBackup_ok_iff.2 h] at hcheck
        cases hcheck
      | ok u =>
        have hchecked := checkBackup_ok_iff.1 hcheck
        simp only [Except.map, Except.ok.injEq]
        exact ⟨fun h => ⟨h, h ▸ hchecked⟩, fun h => h.1⟩

/-! ### Loading what was written -/

def EntriesEncodable (deps : Deps) (entries : List StorageEntry) : Prop :=
  ∀ e ∈ entries, ∃ payload, deps.serialize (.entry e) = .ok payload

theorem loadEntries_ok_iff :
    loadEntries deps file = .ok es ↔ ∃ report, loadEntriesWithReport deps file = .ok (es, report) := by
  unfold loadEntries
  cases loadEntriesWithReport deps file with
  | error e => simp [Except.map]
  | ok loaded =>
    simp only [Except.map, Except.ok.injEq]
    exact ⟨fun h => ⟨loaded.2, Prod.ext h rfl⟩, fun ⟨_, h⟩ => congrArg Prod.fst h⟩

theorem report_of_load
    {report : AofIntegrityReport} (h : loadEntriesWithReport deps file = .ok (es, report)) :
    report.entryCount = es.length ∧
      report.checksumHex = checksumHex (StorageEntry.checksum deps.md5 es) := by
  cases file with
  | none =>
    cases h
    exact ⟨rfl, rfl⟩
  | some file =>
    simp only [loadEntriesWithReport] at h
    obtain ⟨scanned, hscan, h⟩ := Lib.bind_eq_ok.1 h
    cases h
    exact ⟨rfl, rfl⟩

variable (sys) in
theorem Disk.rewrite_loads (disk : Disk) (path : String) {entries : List StorageEntry}
    (henc : EntriesEncodable deps entries) (hinc : Increasing entries) :
    (disk.rewrite deps sys path entries).1 = .ok () ∧
      loadEntries deps (disk.rewrite deps sys path entries).2[path]? = .ok entries := by
  obtain ⟨file, hfile, hencodes⟩ := rewrite_encodes henc
  unfold Disk.rewrite
  simp only [hfile, Std.ExtTreeMap.getElem?_insert_self]
  have hload := loadEntries_complete hencodes (validFrames_map_entry hinc)
  rw [framesEntries_map_entry] at hload
  exact ⟨trivial, hload⟩

/-! ### Restoring -/

section Restore

variable (sys) {disk : Disk} {backupPath destination : String} {force : Bool}
  (hallowed : (disk.contains destination && !force) = false)

include hallowed

theorem restoreAof_refused (hnone : ∀ backup, ¬ Offers deps json disk backupPath backup) :
    (∃ e, (restoreAof deps json sys disk backupPath destination force).1 = .error e) ∧
      (restoreAof deps json sys disk backupPath destination force).2 = disk := by
  unfold restoreAof
  cases hread : readBackup deps json sys disk backupPath with
  | error e => simp [hallowed]
  | ok backup => exact absurd (readBackup_ok_iff.1 hread) (hnone backup)

theorem restoreAof_replaces {backup : AofBackupFile}
    (hoffers : Offers deps json disk backupPath backup) (henc : EntriesEncodable deps backup.entries) :
    loadEntries deps
        (restoreAof deps json sys disk backupPath destination force).2[destination]? =
          .ok backup.entries ∧
      ((∃ report, (restoreAof deps json sys disk backupPath destination force).1 = .ok report) ↔
        backup.entryCount = backup.entries.length) := by
  obtain ⟨content, hcontent, hparse, hchecked⟩ := hoffers
  have hread : readBackup deps json sys disk backupPath = .ok backup :=
    readBackup_ok_iff.2 ⟨content, hcontent, hparse, hchecked⟩
  obtain ⟨hwritten, hloads⟩ := disk.rewrite_loads sys destination henc hchecked.increasing
  obtain ⟨report, hreport⟩ := loadEntries_ok_iff.1 hloads
  obtain ⟨hcount, hsum⟩ := report_of_load hreport
  unfold restoreAof
  cases hrewrite : disk.rewrite deps sys destination backup.entries with
  | mk result disk' =>
    rw [hrewrite] at hwritten hloads hreport
    subst hwritten
    simp only [hallowed, Bool.false_eq_true, if_false, hread, hrewrite, hreport, hsum,
      hchecked.checksum, hcount, bne_self_eq_false, Bool.false_or, bne_iff_ne]
    refine ⟨?_, ?_⟩
    · split <;> exact hloads
    · by_cases heq : backup.entries.length = backup.entryCount
      · simp [heq]
      · simp [heq, Ne.symm heq]

end Restore

/-! ### Both ways -/

/-- A backup that gets through the checks, of which only the number of entries is wrong. -/
def Miscounted (deps : Deps) (json : BackupJson) (disk : Disk) (backupPath : String)
    (held : List StorageEntry) : Prop :=
  ∃ backup, Offers deps json disk backupPath backup ∧
    backup.entryCount ≠ backup.entries.length ∧ backup.entries ≠ held

section Encodable

variable (henc : ∀ content backup, json.fromReader content = .ok backup →
  EntriesEncodable deps backup.entries)

include henc

theorem restore_of_backup {version : String} {created : Nat} {disk : Disk}
    {source backupPath target : String} {es : List StorageEntry} {report : AofIntegrityReport}
    {bytes : List UInt8} (hload : loadEntriesWithReport deps disk[source]? = .ok (es, report))
    (hbytes : json.toWriterPretty (backupFile version created source es report) = .ok bytes)
    (hne : target ≠ backupPath) (hnew : disk[target]? = none) :
    let saved := backupAof deps json version created disk source backupPath
    let restored := restoreAof deps json sys saved.2 backupPath target false
    (∃ report, saved.1 = .ok report) ∧ (∃ report, restored.1 = .ok report) ∧
      loadEntries deps restored.2[target]? = .ok es := by
  have hsaved : backupAof deps json version created disk source backupPath =
      (.ok { backupPath, sourcePath := source, entryCount := report.entryCount
             lastSequence := report.lastSequence, checksumHex := report.checksumHex },
       disk.insert backupPath bytes) := by
    simp only [backupAof, hload, hbytes]
  obtain ⟨hcount, hsum⟩ := report_of_load hload
  have hparse := json.fromReader_toWriterPretty hbytes
  have hoffers : Offers deps json (disk.insert backupPath bytes) backupPath
      (backupFile version created source es report) := by
    refine ⟨bytes, Std.ExtTreeMap.getElem?_insert_self, hparse, rfl, ?_, hsum.symm⟩
    exact loadEntries_increasing (loadEntries_ok_iff.2 ⟨report, hload⟩)
  have hallowed : ((disk.insert backupPath bytes).contains target && !false) = false := by
    have hkeep : (disk.insert backupPath bytes)[target]? = none := by
      simp [Std.ExtTreeMap.getElem?_insert, hne.symm, hnew]
    rw [Std.ExtTreeMap.contains_eq_isSome_getElem?, hkeep]
    rfl
  obtain ⟨hloads, hok⟩ := restoreAof_replaces sys hallowed hoffers (henc _ _ hparse)
  rw [hsaved]
  exact ⟨⟨_, rfl⟩, hok.2 hcount, hloads⟩

/-- A backup restores to the entries it was made of, and a forced restore that fails has left the
destination as it was, unless the backup gives a wrong number of entries. -/
theorem restore_faithful_and_safe_iff :
    (∀ version created disk source backupPath target es report bytes,
      loadEntriesWithReport deps disk[source]? = .ok (es, report) →
      json.toWriterPretty (backupFile version created source es report) = .ok bytes →
      target ≠ backupPath → disk[target]? = none →
      (∃ saved, (backupAof deps json version created disk source backupPath).1 = .ok saved) ∧
        (∃ restored, (restoreAof deps json sys
          (backupAof deps json version created disk source backupPath).2 backupPath target
            false).1 = .ok restored) ∧
        loadEntries deps (restoreAof deps json sys
          (backupAof deps json version created disk source backupPath).2 backupPath target
            false).2[target]? = .ok es) ∧
    ∀ (disk : Disk) backupPath target held, disk.contains target →
      loadEntries deps disk[target]? = .ok held →
      ((∀ e, (restoreAof deps json sys disk backupPath target true).1 = .error e →
        loadEntries deps (restoreAof deps json sys disk backupPath target true).2[target]? =
          .ok held) ↔ ¬ Miscounted deps json disk backupPath held) := by
  refine ⟨?_, ?_⟩
  · intro version created disk source backupPath target es report bytes hload hbytes hne hnew
    exact restore_of_backup henc hload hbytes hne hnew
  · intro disk backupPath target held _ hheld
    have hallowed : (disk.contains target && !true) = false := Bool.and_false _
    by_cases hnone : ∀ backup, ¬ Offers deps json disk backupPath backup
    · have hsame := (restoreAof_refused sys hallowed hnone).2
      refine iff_of_true (fun _ _ => by rw [hsame, hheld]) ?_
      rintro ⟨backup, hoffers, -⟩
      exact hnone backup hoffers
    · obtain ⟨backup, hoffers⟩ := not_forall_not.1 hnone
      obtain ⟨content, hcontent, hparse, hchecked⟩ := hoffers
      obtain ⟨hloads, hok⟩ := restoreAof_replaces sys hallowed
        ⟨content, hcontent, hparse, hchecked⟩ (henc _ _ hparse)
      constructor
      · intro hsafe
        rintro ⟨other, ⟨content', hcontent', hparse', -⟩, hcount, hdiffers⟩
        -- there is one backup under the path
        obtain rfl := Option.some.inj (hcontent.symm.trans hcontent')
        obtain rfl := Except.ok.inj (hparse.symm.trans hparse')
        cases hresult : (restoreAof deps json sys disk backupPath target true).1 with
        | ok report => exact hcount (hok.1 ⟨report, hresult⟩)
        | error e => exact hdiffers (Except.ok.inj (hloads.symm.trans (hsafe e hresult)))
      · intro hcounted e herror
        rw [hloads]
        by_contra hdiffers
        refine hcounted ⟨backup, ⟨content, hcontent, hparse, hchecked⟩, ?_, ?_⟩
        · intro hcount
          obtain ⟨report, hreport⟩ := hok.2 hcount
          rw [herror] at hreport
          cases hreport
        · intro heq
          exact hdiffers (congrArg Except.ok heq)

end Encodable

namespace Miscount

def firstEntry : StorageEntry := ⟨1, 0, []⟩

def oneEntry (count : Nat) : AofBackupFile where
  format := aofBackupFormat
  version := "1"
  createdUnixSeconds := 0
  sourcePath := "live.aof"
  entryCount := count
  firstSequence := some 1
  lastSequence := 1
  checksumHex := ""
  entries := [firstEntry]

def twoDocuments : BackupJson where
  toWriterPretty := fun backup =>
    if backup = oneEntry 1 then .ok [1]
    else if backup = oneEntry 2 then .ok [2] else .error ("unknown document", [])
  fromReader := fun bytes =>
    if bytes = [1] then .ok (oneEntry 1)
    else if bytes = [2] then .ok (oneEntry 2) else .error "unknown document"
  fromReader_toWriterPretty := by
    intro backup bytes h
    split_ifs at h with hone htwo
    · obtain rfl := Except.ok.inj h
      rw [hone]
      rfl
    · obtain rfl := Except.ok.inj h
      rw [htwo]
      rfl

def plainSystem : System where
  rewritePath := fun path => path ++ ".rewrite"
  notFound := "not found"

theorem encodable_oneEntry : EntriesEncodable Bincode.deps [firstEntry] := by
  intro e he
  rw [List.mem_singleton.1 he]
  exact ⟨_, serialize_firstEntry⟩

theorem twoDocuments_encodable (content : List UInt8) (backup : AofBackupFile)
    (h : twoDocuments.fromReader content = .ok backup) :
    EntriesEncodable Bincode.deps backup.entries := by
  dsimp only [twoDocuments] at h
  split_ifs at h with hone htwo
  · obtain rfl := Except.ok.inj h
    exact encodable_oneEntry
  · obtain rfl := Except.ok.inj h
    exact encodable_oneEntry

def diskWith (document : UInt8) : Disk :=
  ((∅ : Disk).insert "live.aof" []).insert "backup.json" [document]

theorem live_is_empty (document : UInt8) :
    loadEntries Bincode.deps (diskWith document)["live.aof"]? = .ok [] := by
  exact loadEntries_complete encodes_nil ⟨trivial, increasing_nil⟩

/-- The restore reports an error, and the file it should have left alone holds the entry of the
backup. -/
theorem miscounted_backup_replaces :
    loadEntries Bincode.deps (diskWith 2)["live.aof"]? = .ok [] ∧
      (∃ e, (restoreAof Bincode.deps twoDocuments plainSystem (diskWith 2) "backup.json"
        "live.aof" true).1 = .error e) ∧
      loadEntries Bincode.deps (restoreAof Bincode.deps twoDocuments plainSystem (diskWith 2)
        "backup.json" "live.aof" true).2["live.aof"]? = .ok [firstEntry] := by
  have hoffers : Offers Bincode.deps twoDocuments (diskWith 2) "backup.json" (oneEntry 2) :=
    ⟨[2], rfl, rfl, rfl, increasing_singleton _, rfl⟩
  obtain ⟨hloads, hok⟩ := restoreAof_replaces plainSystem
    (show ((diskWith 2).contains "live.aof" && !true) = false from Bool.and_false _) hoffers
    encodable_oneEntry
  refine ⟨live_is_empty 2, ?_, hloads⟩
  cases hresult : (restoreAof Bincode.deps twoDocuments plainSystem (diskWith 2) "backup.json"
      "live.aof" true).1 with
  | error e => exact ⟨e, rfl⟩
  | ok report => exact absurd (hok.1 ⟨report, hresult⟩) (by decide)

def oneEntryDisk : Disk := (∅ : Disk).insert "live.aof" (frame (Bincode.encode (.entry firstEntry)))

theorem oneEntryDisk_loads : ∃ report,
    loadEntriesWithReport Bincode.deps oneEntryDisk["live.aof"]? = .ok ([firstEntry], report) ∧
      backupFile "1" 0 "live.aof" [firstEntry] report = oneEntry 1 := by
  exact ⟨_, load_complete (encodes_singleton serialize_firstEntry)
    ⟨⟨trivial, trivial⟩, increasing_singleton _⟩, rfl⟩

/-- With the right number the backup is restored, and a file it is restored over is safe. -/
theorem counted_backup_restored :
    (∃ restored, (restoreAof Bincode.deps twoDocuments plainSystem
      (backupAof Bincode.deps twoDocuments "1" 0 oneEntryDisk "live.aof" "backup.json").2
        "backup.json" "new.aof" false).1 = .ok restored) ∧
    loadEntries Bincode.deps (restoreAof Bincode.deps twoDocuments plainSystem
      (backupAof Bincode.deps twoDocuments "1" 0 oneEntryDisk "live.aof" "backup.json").2
        "backup.json" "new.aof" false).2["new.aof"]? = .ok [firstEntry] ∧
    ∀ e, (restoreAof Bincode.deps twoDocuments plainSystem (diskWith 1) "backup.json" "live.aof"
        true).1 = .error e →
      loadEntries Bincode.deps (restoreAof Bincode.deps twoDocuments plainSystem (diskWith 1)
        "backup.json" "live.aof" true).2["live.aof"]? = .ok [] := by
  have hclaim := @restore_faithful_and_safe_iff Bincode.deps twoDocuments plainSystem
    twoDocuments_encodable
  obtain ⟨report, hload, hbackup⟩ := oneEntryDisk_loads
  obtain ⟨-, hrestored, hentries⟩ := hclaim.1 "1" 0 oneEntryDisk "live.aof" "backup.json" "new.aof"
    [firstEntry] report [1] hload (by rw [hbackup]; rfl) (by decide) rfl
  refine ⟨hrestored, hentries,
    (hclaim.2 (diskWith 1) "backup.json" "live.aof" [] rfl (live_is_empty 1)).2 ?_⟩
  rintro ⟨backup, ⟨content, hcontent, hparse, -⟩, hcount, -⟩
  have hone : (diskWith 1)["backup.json"]? = some [1] := rfl
  obtain rfl := Option.some.inj (hone.symm.trans hcontent)
  obtain rfl := Except.ok.inj hparse
  exact hcount rfl

end Miscount

end LatLng.Aof
