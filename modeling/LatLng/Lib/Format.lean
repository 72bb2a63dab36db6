import LatLng.Lib.TreeMap

/-! Formats: a writer and a reader over documents, with the law that says which values survive.
A value is read back as it was exactly when each of its atoms is one that a document can hold. -/

namespace LatLng.Lib

open List

inductive Shape (δ : Type) where
  | null
  | text (s : String)
  | array (items : List δ)
  | object (members : List (String × δ))
  | other

/-- Documents made of texts, arrays and objects, with a null. -/
class Document (δ : Type) where
  null : δ
  text : String → δ
  array : List δ → δ
  object : List (String × δ) → δ
  shape : δ → Shape δ
  shape_null : shape null = .null
  shape_text : ∀ s, shape (text s) = .text s
  shape_array : ∀ items, shape (array items) = .array items
  shape_object : ∀ members, shape (object members) = .object members

attribute [simp] Document.shape_null Document.shape_text Document.shape_array
  Document.shape_object

structure Format (δ : Type) {ν : Type} (kept : ν → Prop) (α : Type) where
  encode : α → δ
  decode : δ → Option α
  atoms : α → List ν
  decode_encode : ∀ a, decode (encode a) = some a ↔ ∀ x ∈ atoms a, kept x

/-- The members that a value contributes to an object. They are read by name, so other members
do not matter. -/
structure Fields (δ : Type) {ν : Type} (kept : ν → Prop) (α : Type) where
  names : List String
  write : α → List (String × δ)
  read : (String → Option δ) → Option α
  atoms : α → List ν
  map_fst_write : ∀ a, (write a).map Prod.fst = names
  read_write : ∀ a lookup, (∀ e ∈ write a, lookup e.1 = some e.2) →
    (read lookup = some a ↔ ∀ x ∈ atoms a, kept x)

variable {δ ν α β : Type} {kept : ν → Prop}

namespace Format

def put (f : Format δ kept α) (a : α) : δ × List ν := (f.encode a, f.atoms a)

theorem map_decode_encode (f : Format δ kept α) {g : α → β} (hg : Function.Injective g) (a : α) :
    (f.decode (f.encode a)).map g = some (g a) ↔ ∀ x ∈ f.atoms a, kept x := by
  rw [← f.decode_encode, Option.map_eq_some_iff]
  constructor
  · rintro ⟨a', ha', heq⟩
    rw [ha', hg heq]
  · intro h
    exact ⟨a, h, rfl⟩

theorem mapM_decode_encode (f : Format δ kept α) (as : List α) :
    (as.map f.encode).mapM f.decode = some as ↔ ∀ a ∈ as, ∀ x ∈ f.atoms a, kept x := by
  induction as with
  | nil => simp
  | cons a as ih =>
    rw [forall_mem_cons, ← ih, ← f.decode_encode, map_cons, mapM_cons]
    simp only [Option.bind_eq_bind, Option.pure_def, Option.bind_eq_some_iff, Option.some.injEq,
      cons.injEq]
    constructor
    · rintro ⟨a', ha', as', has', rfl, rfl⟩
      exact ⟨ha', has'⟩
    · rintro ⟨ha, has⟩
      exact ⟨a, ha, as, has, rfl, rfl⟩

def readMembers (f : Format δ kept α) (ms : List (String × δ)) : Option (List (String × α)) :=
  ms.mapM fun m => (f.decode m.2).map (Prod.mk m.1)

theorem readMembers_cons (f : Format δ kept α) (m : String × δ) (ms : List (String × δ))
    (es : List (String × α)) : f.readMembers (m :: ms) = some es ↔
      ∃ a rest, f.decode m.2 = some a ∧ f.readMembers ms = some rest ∧ es = (m.1, a) :: rest := by
  unfold readMembers
  rw [mapM_cons]
  simp only [Option.bind_eq_bind, Option.pure_def, Option.bind_eq_some_iff, Option.map_eq_some_iff,
    Option.some.injEq]
  constructor
  · rintro ⟨e, ⟨a, ha, rfl⟩, rest, hrest, rfl⟩
    exact ⟨a, rest, ha, hrest, rfl⟩
  · rintro ⟨a, rest, ha, hrest, rfl⟩
    exact ⟨_, ⟨a, ha, rfl⟩, rest, hrest, rfl⟩

theorem map_fst_of_readMembers (f : Format δ kept α) {ms : List (String × δ)}
    {es : List (String × α)} (h : f.readMembers ms = some es) :
    es.map Prod.fst = ms.map Prod.fst := by
  induction ms generalizing es with
  | nil =>
    cases h
    rfl
  | cons m ms ih =>
    obtain ⟨a, rest, -, hrest, rfl⟩ := (f.readMembers_cons m ms es).1 h
    rw [map_cons, map_cons, ih hrest]

section Documents

variable [Document δ]

def text : Format δ kept String where
  encode := Document.text
  decode d := match Document.shape d with
    | .text s => some s
    | _ => none
  atoms _ := []
  decode_encode s := by simp

def list (f : Format δ kept α) : Format δ kept (List α) where
  encode as := Document.array (as.map f.encode)
  decode d := match Document.shape d with
    | .array items => items.mapM f.decode
    | _ => none
  atoms as := as.flatMap f.atoms
  decode_encode as := by
    simp only [Document.shape_array, f.mapM_decode_encode, mem_flatMap, forall_exists_index,
      and_imp]
    exact ⟨fun h x a ha hx => h a ha x hx, fun h a ha x hx => h x a ha hx⟩

def option (f : Format δ kept α)
    (hnull : ∀ a, (∀ x ∈ f.atoms a, kept x) → Document.shape (f.encode a) ≠ .null) :
    Format δ kept (Option α) where
  encode
    | none => Document.null
    | some a => f.encode a
  decode d := match Document.shape d with
    | .null => some none
    | _ => (f.decode d).map some
  atoms
    | none => []
    | some a => f.atoms a
  decode_encode
    | none => by simp
    | some a => by
      split
      next heq =>
        refine iff_of_false nofun fun hkept => hnull a hkept heq
      · exact f.map_decode_encode (fun _ _ h => Option.some.inj h) a

def members (f : Format δ kept α) : Format δ kept (List (String × α)) where
  encode es := Document.object (es.map fun e => (e.1, f.encode e.2))
  decode d := match Document.shape d with
    | .object ms => f.readMembers ms
    | _ => none
  atoms es := es.flatMap fun e => f.atoms e.2
  decode_encode es := by
    rw [Document.shape_object]
    induction es with
    | nil => simp [readMembers]
    | cons e es ih =>
      rw [map_cons, readMembers_cons, flatMap_cons, forall_mem_append, ← ih,
        ← f.decode_encode]
      constructor
      · rintro ⟨a, rest, ha, hrest, heq⟩
        obtain ⟨he, rfl⟩ := cons.inj heq
        have hvalue : e.2 = a := congrArg Prod.snd he
        exact ⟨by rw [hvalue]; rwa [hvalue] at ha, hrest⟩
      · rintro ⟨he, hes⟩
        exact ⟨e.2, es, he, hes, rfl⟩

def treeMap (f : Format δ kept α) : Format δ kept (Std.ExtTreeMap String α) where
  encode m := f.members.encode m.toList
  decode d := (f.members.decode d).map fun es => es.foldl (fun m e => m.insert e.1 e.2) ∅
  atoms m := f.members.atoms m.toList
  decode_encode m := by
    rw [← f.members.decode_encode, Option.map_eq_some_iff]
    constructor
    · rintro ⟨es, hes, hm⟩
      have hkeys : es.map Prod.fst = m.toList.map Prod.fst := by
        have hread : f.readMembers (m.toList.map fun e => (e.1, f.encode e.2)) = some es := by
          simpa [members] using hes
        rw [f.map_fst_of_readMembers hread, map_map]
        rfl
      rw [hes, ← eq_toList_of_foldl_insert hkeys hm]
    · intro h
      exact ⟨_, h, foldl_insert_toList m⟩

def writeTag : String × Option δ → δ
  | (tag, none) => Document.text tag
  | (tag, some body) => Document.object [(tag, body)]

def readTag (d : δ) : Option (String × Option δ) :=
  match Document.shape d with
  | .text tag => some (tag, none)
  | .object [(tag, body)] => some (tag, some body)
  | _ => none

@[simp] theorem readTag_writeTag (e : String × Option δ) : readTag (writeTag e) = some e := by
  obtain ⟨tag, _ | body⟩ := e <;> simp [readTag, writeTag]

def choice (write : α → String × Option (δ × List ν)) (read : String → Option δ → Option α)
    (law : ∀ a, read (write a).1 ((write a).2.map Prod.fst) = some a ↔
      ∀ x ∈ (write a).2.elim [] Prod.snd, kept x) : Format δ kept α where
  encode a := writeTag ((write a).1, (write a).2.map Prod.fst)
  decode d := (readTag d).bind fun e => read e.1 e.2
  atoms a := (write a).2.elim [] Prod.snd
  decode_encode a := by rw [readTag_writeTag, Option.bind_some, law]

def enumeration (name : α → String) (read : String → Option α)
    (law : ∀ a, read (name a) = some a) : Format δ kept α where
  encode a := Document.text (name a)
  decode d := match Document.shape d with
    | .text tag => read tag
    | _ => none
  atoms _ := []
  decode_encode a := by simp [law]

def adjacent (tagName contentName : String) (hnames : tagName ≠ contentName)
    (write : α → String × δ × List ν) (read : String → δ → Option α)
    (law : ∀ a, read (write a).1 (write a).2.1 = some a ↔ ∀ x ∈ (write a).2.2, kept x) :
    Format δ kept α where
  encode a := Document.object [(tagName, Document.text (write a).1), (contentName, (write a).2.1)]
  decode d := match Document.shape d with
    | .object members =>
      match (members.lookup tagName).map Document.shape, members.lookup contentName with
      | some (.text tag), some body => read tag body
      | _, _ => none
    | _ => none
  atoms a := (write a).2.2
  decode_encode a := by
    have hne : (contentName == tagName) = false := beq_eq_false_iff_ne.2 hnames.symm
    simp [lookup, hne, law]

@[simp] theorem atoms_text (s : String) : (text : Format δ kept String).atoms s = [] := rfl

@[simp] theorem atoms_list (f : Format δ kept α) (as : List α) :
    f.list.atoms as = as.flatMap f.atoms := rfl

@[simp] theorem atoms_enumeration (name : α → String) (read : String → Option α)
    (law : ∀ a, read (name a) = some a) (a : α) :
    (enumeration name read law : Format δ kept α).atoms a = [] := rfl

end Documents

end Format

theorem lookup_of_mem {members : List (String × δ)} (hnodup : (members.map Prod.fst).Nodup)
    {e : String × δ} (he : e ∈ members) : members.lookup e.1 = some e.2 := by
  obtain ⟨before, after, rfl⟩ := append_of_mem he
  rw [map_append, map_cons, nodup_append] at hnodup
  refine lookup_eq_some_iff.2 ⟨before, after, rfl, fun p hp => ?_⟩
  have hne := hnodup.2.2 p.1 (mem_map_of_mem hp) e.1 mem_cons_self
  exact bne_iff_ne.2 hne.symm

namespace Fields

def field (name : String) (f : Format δ kept α) (missing : Option α) : Fields δ kept α where
  names := [name]
  write a := [(name, f.encode a)]
  read lookup := match lookup name with
    | some d => f.decode d
    | none => missing
  atoms := f.atoms
  map_fst_write _ := rfl
  read_write a lookup h := by
    rw [h (name, f.encode a) mem_cons_self]
    exact f.decode_encode a

def pair (l : Fields δ kept α) (r : Fields δ kept β) : Fields δ kept (α × β) where
  names := l.names ++ r.names
  write a := l.write a.1 ++ r.write a.2
  read lookup := (l.read lookup).bind fun a => (r.read lookup).map (Prod.mk a)
  atoms a := l.atoms a.1 ++ r.atoms a.2
  map_fst_write a := by rw [map_append, l.map_fst_write, r.map_fst_write]
  read_write := by
    rintro ⟨a, b⟩ lookup h
    have hl := l.read_write a lookup fun e he => h e (mem_append_left _ he)
    have hr := r.read_write b lookup fun e he => h e (mem_append_right _ he)
    rw [forall_mem_append, ← hl, ← hr, Option.bind_eq_some_iff]
    constructor
    · rintro ⟨a', ha', hb'⟩
      obtain ⟨b', hb', heq⟩ := Option.map_eq_some_iff.1 hb'
      cases heq
      exact ⟨ha', hb'⟩
    · rintro ⟨ha, hb⟩
      exact ⟨a, ha, by rw [hb]; rfl⟩

def iso (f : Fields δ kept α) (pack : α → β) (unpack : β → α)
    (hpack : ∀ b, pack (unpack b) = b) (hunpack : ∀ a, unpack (pack a) = a) :
    Fields δ kept β where
  names := f.names
  write b := f.write (unpack b)
  read lookup := (f.read lookup).map pack
  atoms b := f.atoms (unpack b)
  map_fst_write b := f.map_fst_write (unpack b)
  read_write b lookup h := by
    rw [← f.read_write (unpack b) lookup h, Option.map_eq_some_iff]
    constructor
    · rintro ⟨a, ha, rfl⟩
      rwa [hunpack]
    · intro ha
      exact ⟨unpack b, ha, hpack b⟩

@[simp] theorem atoms_field (name : String) (f : Format δ kept α) (missing : Option α) (a : α) :
    (field name f missing).atoms a = f.atoms a := rfl

@[simp] theorem atoms_pair (l : Fields δ kept α) (r : Fields δ kept β) (a : α × β) :
    (l.pair r).atoms a = l.atoms a.1 ++ r.atoms a.2 := rfl

@[simp] theorem atoms_iso (f : Fields δ kept α) (pack : α → β) (unpack : β → α)
    (hpack : ∀ b, pack (unpack b) = b) (hunpack : ∀ a, unpack (pack a) = a) (b : β) :
    (f.iso pack unpack hpack hunpack).atoms b = f.atoms (unpack b) := rfl

variable [Document δ]

def struct (f : Fields δ kept α) (strict : Bool) (hnames : decide f.names.Nodup = true) :
    Format δ kept α where
  encode a := Document.object (f.write a)
  decode d := match Document.shape d with
    | .object members =>
      if strict && !members.all (fun e => e.1 ∈ f.names) then none
      else f.read fun name => members.lookup name
    | _ => none
  atoms := f.atoms
  decode_encode a := by
    have hknown : (f.write a).all (fun e => decide (e.1 ∈ f.names)) = true := by
      rw [all_eq_true]
      intro e he
      rw [← f.map_fst_write a]
      exact decide_eq_true (mem_map_of_mem he)
    rw [Document.shape_object]
    dsimp only
    rw [hknown, Bool.not_true, Bool.and_false, if_neg Bool.false_ne_true]
    refine f.read_write a _ fun e he => ?_
    have hnodup : ((f.write a).map Prod.fst).Nodup := by
      rw [f.map_fst_write]
      exact of_decide_eq_true hnames
    exact lookup_of_mem hnodup he

@[simp] theorem atoms_struct (f : Fields δ kept α) (strict : Bool)
    (hnames : decide f.names.Nodup = true) (a : α) : (f.struct strict hnames).atoms a = f.atoms a := rfl

end Fields

end LatLng.Lib
