import Mathlib

/-! Text as a list of characters: trimming, and splitting at a separator from left to right
without overlaps. White space around a text does not change the trimmed pieces. -/

namespace LatLng.Lib

open List

def isWhitespace (c : Char) : Bool :=
  let n := c.toNat
  decide (0x9 ≤ n ∧ n ≤ 0xd) || n == 0x20 || n == 0x85 || n == 0xa0 || n == 0x1680 ||
    decide (0x2000 ≤ n ∧ n ≤ 0x200a) || n == 0x2028 || n == 0x2029 || n == 0x202f || n == 0x205f ||
    n == 0x3000

def trimBy (p : Char → Bool) (text : List Char) : List Char := (text.dropWhile p).rdropWhile p

def trim (text : List Char) : List Char := trimBy isWhitespace text

def splitAfter (sep : List Char) : Nat → List Char → List (List Char)
  | _, [] => [[]]
  | skip + 1, _ :: text => splitAfter sep skip text
  | 0, c :: text =>
    if sep.isPrefixOf (c :: text) then [] :: splitAfter sep (sep.length - 1) text
    else (splitAfter sep 0 text).modifyHead (c :: ·)

def split (sep text : List Char) : List (List Char) := splitAfter sep 0 text

def splitOnce (sep : List Char) : List Char → Option (List Char × List Char)
  | [] => if sep = [] then some ([], []) else none
  | c :: text =>
    if sep.isPrefixOf (c :: text) then some ([], (c :: text).drop sep.length)
    else (splitOnce sep text).map fun (before, after) => (c :: before, after)

/-! ### Trimming -/

section Trim

variable {p : Char → Bool} {space text : List Char}

theorem dropWhile_of_all (h : ∀ c ∈ space, p c) : (space ++ text).dropWhile p = text.dropWhile p := by
  rw [dropWhile_append, dropWhile_eq_nil_iff.2 h]
  rfl

theorem trimBy_append_left (h : ∀ c ∈ space, p c) : trimBy p (space ++ text) = trimBy p text := by
  rw [trimBy, dropWhile_of_all h, trimBy]

theorem trimBy_append_right (h : ∀ c ∈ space, p c) : trimBy p (text ++ space) = trimBy p text := by
  have hend : ∀ front : List Char, (front ++ space).rdropWhile p = front.rdropWhile p := by
    intro front
    have hreverse : ∀ c ∈ space.reverse, p c := fun c hc => h c (mem_reverse.1 hc)
    rw [rdropWhile, reverse_append, dropWhile_of_all hreverse, rdropWhile]
  rw [trimBy, trimBy, dropWhile_append]
  split
  next hempty =>
    rw [isEmpty_iff.1 hempty, dropWhile_eq_nil_iff.2 h]
  · exact hend _

theorem exists_trimBy (p : Char → Bool) (text : List Char) :
    ∃ front back, text = front ++ trimBy p text ++ back ∧ (∀ c ∈ front, p c) ∧ ∀ c ∈ back, p c := by
  refine ⟨text.takeWhile p, (text.dropWhile p).rtakeWhile p, ?_, ?_, ?_⟩
  · have hback : (text.dropWhile p).rdropWhile p ++ (text.dropWhile p).rtakeWhile p =
        text.dropWhile p := by
      rw [rdropWhile, rtakeWhile, ← reverse_append, takeWhile_append_dropWhile,
        reverse_reverse]
    rw [trimBy, append_assoc, hback, takeWhile_append_dropWhile]
  · exact fun c hc => mem_takeWhile_imp hc
  · intro c hc
    rw [rtakeWhile, mem_reverse] at hc
    exact mem_takeWhile_imp hc

theorem trimBy_trimBy (p : Char → Bool) (text : List Char) :
    trimBy p (trimBy p text) = trimBy p text := by
  obtain ⟨front, back, htext, hfront, hback⟩ := exists_trimBy p text
  conv_rhs => rw [htext, trimBy_append_right hback, trimBy_append_left hfront]

end Trim

/-! ### Splitting between white space -/

section Split

variable {p : Char → Bool} {sep space : List Char}

theorem split_append_left (hne : sep ≠ []) (hsep : ∀ c ∈ sep, ¬ p c) (hspace : ∀ c ∈ space, p c)
    (text : List Char) : split sep (space ++ text) = (split sep text).modifyHead (space ++ ·) := by
  induction space with
  | nil => cases h : split sep text <;> simp [h]
  | cons c space ih =>
    obtain ⟨hc, hrest⟩ := forall_mem_cons.1 hspace
    have hprefix : sep.isPrefixOf (c :: (space ++ text)) = false := by
      cases sep with
      | nil => exact absurd rfl hne
      | cons s sep =>
        have hs : s ≠ c := fun heq => hsep s mem_cons_self (heq ▸ hc)
        simp [isPrefixOf, hs]
    have hstep : split sep (c :: space ++ text) =
        if sep.isPrefixOf (c :: (space ++ text)) then
          [] :: splitAfter sep (sep.length - 1) (space ++ text)
        else (split sep (space ++ text)).modifyHead (c :: ·) := rfl
    rw [hstep, hprefix, ih hrest]
    simp [modifyHead_modifyHead, Function.comp_def]

def Padded (p : Char → Bool) (padded piece : List Char) : Prop :=
  ∃ back, (∀ c ∈ back, p c) ∧ padded = piece ++ back

theorem padded_refl (piece : List Char) : Padded p piece piece :=
  ⟨[], by simp, (append_nil piece).symm⟩

theorem forall₂_modifyHead {pieces pieces' : List (List Char)}
    (h : List.Forall₂ (Padded p) pieces pieces') (c : Char) :
    List.Forall₂ (Padded p) (pieces.modifyHead (c :: ·)) (pieces'.modifyHead (c :: ·)) := by
  cases h with
  | nil => exact .nil
  | cons hhead htail =>
    obtain ⟨back, hback, rfl⟩ := hhead
    exact .cons ⟨back, hback, rfl⟩ htail

theorem isPrefixOf_append (hsep : ∀ c ∈ sep, ¬ p c) (hspace : ∀ c ∈ space, p c)
    (text : List Char) : sep.isPrefixOf (text ++ space) = sep.isPrefixOf text := by
  induction sep generalizing text with
  | nil => simp
  | cons s sep ih =>
    obtain ⟨hs, hrest⟩ := forall_mem_cons.1 hsep
    cases text with
    | nil =>
      cases space with
      | nil => rfl
      | cons c space =>
        have hne : s ≠ c := fun heq => hs (heq ▸ hspace c mem_cons_self)
        simp [isPrefixOf, hne]
    | cons c text =>
      have htail := ih hrest text
      simp only [cons_append, isPrefixOf, htail]

theorem splitAfter_append_right (hne : sep ≠ []) (hsep : ∀ c ∈ sep, ¬ p c)
    (hspace : ∀ c ∈ space, p c) {skip : Nat} {text : List Char} (hskip : skip ≤ text.length) :
    List.Forall₂ (Padded p) (splitAfter sep skip (text ++ space)) (splitAfter sep skip text) := by
  induction text generalizing skip with
  | nil =>
    have hzero : skip = 0 := Nat.le_zero.1 hskip
    subst hzero
    have hall : split sep space = [space] := by
      have := split_append_left hne hsep hspace []
      rw [append_nil] at this
      rw [this]
      simp [split, splitAfter]
    show List.Forall₂ (Padded p) (split sep space) _
    rw [hall]
    exact .cons ⟨space, hspace, rfl⟩ .nil
  | cons c text ih =>
    cases skip with
    | succ skip => exact ih (Nat.le_of_succ_le_succ hskip)
    | zero =>
      have hstep : ∀ t, splitAfter sep 0 (c :: t) =
          if sep.isPrefixOf (c :: t) then [] :: splitAfter sep (sep.length - 1) t
          else (splitAfter sep 0 t).modifyHead (c :: ·) := fun _ => rfl
      rw [cons_append, hstep, hstep, ← cons_append, isPrefixOf_append hsep hspace]
      split
      next hprefix =>
        have hlength := (List.isPrefixOf_iff_prefix.1 hprefix).length_le
        refine .cons (padded_refl []) (ih ?_)
        rw [length_cons] at hlength
        omega
      · exact forall₂_modifyHead (ih (Nat.zero_le _)) c

theorem map_trimBy_split (hne : sep ≠ []) (hsep : ∀ c ∈ sep, ¬ p c) (text : List Char) :
    (split sep (trimBy p text)).map (trimBy p) = (split sep text).map (trimBy p) := by
  obtain ⟨front, back, htext, hfront, hback⟩ := exists_trimBy p text
  have hhead : ∀ pieces : List (List Char),
      (pieces.modifyHead (front ++ ·)).map (trimBy p) = pieces.map (trimBy p) := by
    intro pieces
    cases pieces with
    | nil => rfl
    | cons piece pieces => simp [trimBy_append_left hfront]
  have hpadded : ∀ {pieces pieces' : List (List Char)}, List.Forall₂ (Padded p) pieces pieces' →
      pieces.map (trimBy p) = pieces'.map (trimBy p) := by
    intro pieces pieces' h
    induction h with
    | nil => rfl
    | cons hpiece _ ih =>
      obtain ⟨space, hspace, rfl⟩ := hpiece
      rw [map_cons, map_cons, ih, trimBy_append_right hspace]
  conv_rhs => rw [htext, append_assoc, split_append_left hne hsep hfront, hhead]
  exact (hpadded (splitAfter_append_right hne hsep hback (Nat.zero_le _))).symm

end Split

end LatLng.Lib
