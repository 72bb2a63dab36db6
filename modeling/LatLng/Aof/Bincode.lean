import LatLng.Aof.Frame

/-! A concrete codec with the documented fixed-width layout: a 32-bit variant tag,
64-bit little-endian numbers and lengths, then the raw bytes. Trailing bytes are
ignored when decoding. It shows that the assumptions made about the codec can be
met together. -/

namespace LatLng.Aof
open Storage Bytes List

namespace Bincode

def encodeEntry (e : StorageEntry) : List UInt8 :=
  toLeBytes 8 e.sequence ++ toLeBytes 8 e.timestampNs ++ toLeBytes 8 e.command.length ++ e.command

mutual

def encode : AofFrame → List UInt8
  | .entry e => toLeBytes 4 0 ++ encodeEntry e
  | .batch es => toLeBytes 4 1 ++ toLeBytes 8 es.length ++ es.flatMap encodeEntry
  | .group fs => toLeBytes 4 2 ++ toLeBytes 8 fs.length ++ encodeAll fs

def encodeAll : List AofFrame → List UInt8
  | [] => []
  | f :: fs => encode f ++ encodeAll fs

end

def entryFits (e : StorageEntry) : Bool :=
  e.sequence < 2 ^ 64 && e.timestampNs < 2 ^ 64 && e.command.length < 2 ^ 64

mutual

def fits : AofFrame → Bool
  | .entry e => entryFits e
  | .batch es => es.length < 2 ^ 64 && es.all entryFits
  | .group fs => fs.length < 2 ^ 64 && fitsAll fs

def fitsAll : List AofFrame → Bool
  | [] => true
  | f :: fs => fits f && fitsAll fs

end

def readLe (w : Nat) (input : List UInt8) : Option (Nat × List UInt8) :=
  if input.length < w then none else some (fromLeBytes (input.take w), input.drop w)

def readBytes (n : Nat) (input : List UInt8) : Option (List UInt8 × List UInt8) :=
  if input.length < n then none else some (input.take n, input.drop n)

def readMany {α : Type} (item : List UInt8 → Option (α × List UInt8)) :
    Nat → List UInt8 → Option (List α × List UInt8)
  | 0, input => some ([], input)
  | n + 1, input => do
    let (x, input) ← item input
    let (xs, input) ← readMany item n input
    some (x :: xs, input)

def readEntry (input : List UInt8) : Option (StorageEntry × List UInt8) := do
  let (sequence, input) ← readLe 8 input
  let (timestampNs, input) ← readLe 8 input
  let (len, input) ← readLe 8 input
  let (command, input) ← readBytes len input
  some (⟨sequence, timestampNs, command⟩, input)

def read : Nat → List UInt8 → Option (AofFrame × List UInt8)
  | 0, _ => none
  | fuel + 1, input => do
    let (tag, input) ← readLe 4 input
    match tag with
    | 0 =>
      let (e, input) ← readEntry input
      some (.entry e, input)
    | 1 =>
      let (n, input) ← readLe 8 input
      let (es, input) ← readMany readEntry n input
      some (.batch es, input)
    | 2 =>
      let (n, input) ← readLe 8 input
      let (fs, input) ← readMany (read fuel) n input
      some (.group fs, input)
    | _ => none

theorem readLe_append {w v : Nat} (h : v < 256 ^ w) (rest : List UInt8) :
    readLe w (toLeBytes w v ++ rest) = some (v, rest) := by
  have hlen : ¬ (toLeBytes w v ++ rest).length < w := by simp
  have htake : (toLeBytes w v ++ rest).take w = toLeBytes w v := take_left' (by simp)
  have hdrop : (toLeBytes w v ++ rest).drop w = rest := drop_left' (by simp)
  rw [readLe, if_neg hlen, htake, hdrop, fromLeBytes_toLeBytes h]

theorem readBytes_append (b rest : List UInt8) : readBytes b.length (b ++ rest) = some (b, rest) := by
  simp [readBytes]

theorem readEntry_encodeEntry {e : StorageEntry} (h : entryFits e) (rest : List UInt8) :
    readEntry (encodeEntry e ++ rest) = some (e, rest) := by
  simp only [entryFits, Bool.and_eq_true, decide_eq_true_eq] at h
  obtain ⟨⟨hseq, hts⟩, hlen⟩ := h
  simp only [readEntry, encodeEntry, append_assoc, readLe_append (w := 8) hseq,
    readLe_append (w := 8) hts, readLe_append (w := 8) hlen, readBytes_append, Option.bind_eq_bind,
    Option.bind_some]

theorem readMany_encodeEntry {es : List StorageEntry} (h : es.all entryFits) (rest : List UInt8) :
    readMany readEntry es.length (es.flatMap encodeEntry ++ rest) = some (es, rest) := by
  induction es with
  | nil => rfl
  | cons e es ih =>
    simp only [all_cons, Bool.and_eq_true] at h
    simp only [length_cons, flatMap_cons, append_assoc, readMany,
      readEntry_encodeEntry h.1, ih h.2, Option.bind_eq_bind, Option.bind_some]

mutual

def depth : AofFrame → Nat
  | .entry _ => 1
  | .batch _ => 1
  | .group fs => depthAll fs + 1

def depthAll : List AofFrame → Nat
  | [] => 0
  | f :: fs => max (depth f) (depthAll fs)

end

mutual

theorem read_encode : ∀ {f : AofFrame} {fuel : Nat}, depth f ≤ fuel → fits f → ∀ rest,
    read fuel (encode f ++ rest) = some (f, rest)
  | .entry e, fuel + 1, _, hfit, rest => by
    simp only [encode, append_assoc, read, readLe_append (w := 4) (v := 0) (by decide),
      Option.bind_eq_bind, Option.bind_some, readEntry_encodeEntry hfit]
  | .batch es, fuel + 1, _, hfit, rest => by
    simp only [fits, Bool.and_eq_true, decide_eq_true_eq] at hfit
    simp only [encode, append_assoc, read, readLe_append (w := 4) (v := 1) (by decide),
      readLe_append (w := 8) hfit.1, Option.bind_eq_bind, Option.bind_some,
      readMany_encodeEntry hfit.2]
  | .group fs, fuel + 1, hd, hfit, rest => by
    simp only [fits, Bool.and_eq_true, decide_eq_true_eq] at hfit
    have hd' : depthAll fs ≤ fuel := by
      simp only [depth] at hd
      omega
    simp only [encode, append_assoc, read, readLe_append (w := 4) (v := 2) (by decide),
      readLe_append (w := 8) hfit.1, Option.bind_eq_bind, Option.bind_some,
      readMany_encodeAll hd' hfit.2]
  | .entry _, 0, hd, _, _ => by simp [depth] at hd
  | .batch _, 0, hd, _, _ => by simp [depth] at hd
  | .group _, 0, hd, _, _ => by simp [depth] at hd

theorem readMany_encodeAll : ∀ {fs : List AofFrame} {fuel : Nat}, depthAll fs ≤ fuel → fitsAll fs →
    ∀ rest, readMany (read fuel) fs.length (encodeAll fs ++ rest) = some (fs, rest)
  | [], _, _, _, _ => rfl
  | f :: fs, fuel, hd, hfit, rest => by
    simp only [fitsAll, Bool.and_eq_true] at hfit
    simp only [depthAll] at hd
    have hdf : depth f ≤ fuel := by omega
    have hdfs : depthAll fs ≤ fuel := by omega
    have hf := read_encode hdf hfit.1 (encodeAll fs ++ rest)
    have hfs := readMany_encodeAll hdfs hfit.2 rest
    simp only [length_cons, encodeAll, append_assoc, readMany, hf, hfs,
      Option.bind_eq_bind, Option.bind_some]

end

mutual

theorem depth_le_length : ∀ f : AofFrame, depth f ≤ (encode f).length
  | .entry e => by simp [depth, encode]; omega
  | .batch es => by simp [depth, encode]; omega
  | .group fs => by
    have := depthAll_le_length fs
    simp only [depth, encode, length_append, length_toLeBytes]
    omega

theorem depthAll_le_length : ∀ fs : List AofFrame, depthAll fs ≤ (encodeAll fs).length
  | [] => Nat.le_refl 0
  | f :: fs => by
    have hf := depth_le_length f
    have hfs := depthAll_le_length fs
    simp only [depthAll, encodeAll, length_append]
    omega

end

def serialize (f : AofFrame) : Except String (List UInt8) :=
  if fits f && (encode f).length < 2 ^ 64 then .ok (encode f)
  else .error "the size limit has been reached"

def deserialize (b : List UInt8) : Except String AofFrame :=
  match read b.length b with
  | some (f, _) => .ok f
  | none => .error "io error: unexpected end of file"

theorem deserialize_serialize {f : AofFrame} {b : List UInt8} (h : serialize f = .ok b) :
    deserialize b = .ok f := by
  unfold serialize at h
  split_ifs at h with hfit
  simp only [Bool.and_eq_true, decide_eq_true_eq] at hfit
  obtain rfl := Except.ok.inj h
  have hread := read_encode (depth_le_length f) hfit.1 []
  rw [append_nil] at hread
  rw [deserialize, hread]

theorem serialize_length_lt {f : AofFrame} {b : List UInt8} (h : serialize f = .ok b) :
    b.length < 2 ^ 64 := by
  unfold serialize at h
  split_ifs at h with hfit
  simp only [Bool.and_eq_true, decide_eq_true_eq] at hfit
  obtain rfl := Except.ok.inj h
  exact hfit.2

def deps : Deps where
  serialize := serialize
  deserialize := deserialize
  md5 := fun _ => []
  deserialize_serialize := deserialize_serialize
  length_lt := serialize_length_lt

end Bincode

/-- The layout of a single-entry frame: variant tag, sequence, timestamp, length
and then the command bytes. -/
def EntryLayout (deps : Deps) : Prop :=
  ∀ e : StorageEntry, e.sequence < 2 ^ 64 → e.timestampNs < 2 ^ 64 →
    28 + e.command.length < 2 ^ 64 →
    deps.serialize (.entry e) = .ok (toLeBytes 4 0 ++ toLeBytes 8 e.sequence ++
      toLeBytes 8 e.timestampNs ++ toLeBytes 8 e.command.length ++ e.command)

theorem Bincode.entryLayout : EntryLayout Bincode.deps := by
  intro e hseq hts hlen
  have hfit : (fits (.entry e) && decide ((encode (.entry e)).length < 2 ^ 64)) = true := by
    simp only [fits, entryFits, encode, encodeEntry, Bool.and_eq_true, decide_eq_true_eq,
      length_append, length_toLeBytes]
    refine ⟨⟨⟨hseq, hts⟩, by omega⟩, by omega⟩
  change Bincode.serialize (.entry e) = _
  rw [Bincode.serialize, if_pos hfit]
  simp only [encode, encodeEntry, append_assoc]

end LatLng.Aof
