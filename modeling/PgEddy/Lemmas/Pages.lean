import PgEddy.Store
import PgEddy.Lib.Paged

/-!
# Pages under the three changes the code makes

An item is put behind the last line pointer, an item is rewritten in place, a header of the special area is written. What each of
them does to what a page reads back.
-/

namespace PgEddy

/-- Changing the last element of a list. -/
theorem modify_concat_length {α : Type} (l : List α) (a : α) (f : α → α) : (l ++ [a]).modify l.length f = l ++ [f a] := by
  refine List.ext_getElem? fun i => ?_
  rcases Nat.lt_trichotomy i l.length with h | h | h
  · rw [List.getElem?_modify_ne _ _ (by omega), List.getElem?_append_left h, List.getElem?_append_left h]
  · rw [h, List.getElem?_modify_eq, List.getElem?_concat_length, List.getElem?_concat_length]
    rfl
  · rw [List.getElem?_modify_ne _ _ (by omega),
      List.getElem?_eq_none (by simp only [List.length_append, List.length_singleton]; omega),
      List.getElem?_eq_none (by simp only [List.length_append, List.length_singleton]; omega)]

/-! ## Line pointers -/

@[simp] theorem Page.itemId_zero (p : Page) : p.itemId 0 = ItemId.zero := rfl

theorem Page.itemId_of_lt {p : Page} {off : Nat} (h : p.maxOffset < off) : p.itemId off = ItemId.zero := by
  simp only [Page.maxOffset] at h
  rw [Page.itemId, if_neg (by omega), List.getD_eq_getElem?_getD, List.getElem?_eq_none (by omega), Option.getD_none]

theorem Page.itemId_of_le {p : Page} {off : Nat} (h1 : 1 ≤ off) (h2 : off ≤ p.maxOffset) :
    p.linp[off - 1]? = some (p.itemId off) := by
  simp only [Page.maxOffset] at h2
  rw [Page.itemId, if_neg (by omega), List.getD_eq_getElem?_getD, List.getElem?_eq_getElem (by omega), Option.getD_some]

/-- A line pointer that is in use has an offset on the page. -/
theorem Page.offset_of_used {p : Page} {off : Nat} (h : (p.itemId off).lpFlags ≠ .unused) :
    1 ≤ off ∧ off ≤ p.maxOffset := by
  refine ⟨Nat.one_le_iff_ne_zero.mpr fun h0 => h (by rw [h0]; rfl), ?_⟩
  by_contra hlt
  exact h (by rw [Page.itemId_of_lt (by omega)]; rfl)

/-- A line pointer that is in use is one of the page's. -/
theorem Page.itemId_mem {p : Page} {off : Nat} (h1 : 1 ≤ off) (h2 : off ≤ p.maxOffset) : p.itemId off ∈ p.linp :=
  List.mem_of_getElem? (Page.itemId_of_le h1 h2)

/-! ## An item placed behind the last one -/

@[simp] theorem Page.maxOffset_push (p : Page) (it : Item) : (p.push it).maxOffset = p.maxOffset + 1 := by
  simp [Page.push, Page.maxOffset]

@[simp] theorem Page.special_push (p : Page) (it : Item) : (p.push it).special = p.special := rfl

theorem Page.itemId_push (p : Page) (it : Item) (off : Nat) :
    (p.push it).itemId off = if off = p.maxOffset + 1 then ⟨.normal, it⟩ else p.itemId off := by
  simp only [Page.itemId, Page.push, Page.maxOffset, List.getD_eq_getElem?_getD]
  by_cases h0 : off = 0
  · rw [if_pos h0, if_neg (by omega), if_pos h0]
  · rw [if_neg h0, if_neg h0]
    by_cases he : off = p.linp.length + 1
    · rw [if_pos he, he, Nat.add_sub_cancel, List.getElem?_concat_length, Option.getD_some]
    · rw [if_neg he]
      by_cases hlt : off - 1 < p.linp.length
      · rw [List.getElem?_append_left hlt]
      · rw [List.getElem?_eq_none (by simp only [List.length_append, List.length_singleton]; omega),
          List.getElem?_eq_none (by omega)]

theorem Page.AllUsed.push {p : Page} (h : p.AllUsed) (it : Item) : (p.push it).AllUsed := by
  intro i hi
  simp only [Page.push, List.mem_append, List.mem_singleton] at hi
  rcases hi with hi | rfl
  · exact h i hi
  · simp

/-! ## An item rewritten in place -/

@[simp] theorem Page.maxOffset_modify (p : Page) (off : Nat) (f : ItemId → ItemId) :
    (p.modify off f).maxOffset = p.maxOffset := by
  simp [Page.modify, Page.maxOffset]

@[simp] theorem Page.special_modify (p : Page) (off : Nat) (f : ItemId → ItemId) : (p.modify off f).special = p.special := rfl

theorem Page.itemId_modify {p : Page} {off : Nat} (h1 : 1 ≤ off) (h2 : off ≤ p.maxOffset) (f : ItemId → ItemId) (o : Nat) :
    (p.modify off f).itemId o = if o = off then f (p.itemId off) else p.itemId o := by
  simp only [Page.maxOffset] at h2
  simp only [Page.itemId, Page.modify, List.getD_eq_getElem?_getD]
  by_cases h0 : o = 0
  · rw [if_pos h0, if_neg (by omega), if_pos h0]
  · rw [if_neg h0, if_neg h0, if_neg (show off ≠ 0 by omega)]
    by_cases he : o = off
    · subst he
      rw [if_pos rfl, List.getElem?_modify_eq, List.getElem?_eq_getElem (by omega)]
      rfl
    · rw [if_neg he, List.getElem?_modify_ne _ _ (by omega)]

theorem Page.itemId_modifyItem {p : Page} {off : Nat} (h1 : 1 ≤ off) (h2 : off ≤ p.maxOffset) (f : Item → Item) (o : Nat) :
    (p.modifyItem off f).itemId o =
      if o = off then ⟨(p.itemId off).lpFlags, f (p.itemId off).item⟩ else p.itemId o :=
  Page.itemId_modify h1 h2 _ o

@[simp] theorem Page.maxOffset_modifyItem (p : Page) (off : Nat) (f : Item → Item) :
    (p.modifyItem off f).maxOffset = p.maxOffset := Page.maxOffset_modify p off _

@[simp] theorem Page.special_modifyItem (p : Page) (off : Nat) (f : Item → Item) :
    (p.modifyItem off f).special = p.special := rfl

theorem Page.mem_modify {p : Page} {off : Nat} {f : ItemId → ItemId} {i : ItemId} (h : i ∈ (p.modify off f).linp) :
    i ∈ p.linp ∨ ∃ j ∈ p.linp, i = f j := by
  simp only [Page.modify, List.mem_iff_getElem?, List.getElem?_modify, Option.map_eq_map, Option.map_eq_some_iff] at h ⊢
  obtain ⟨k, j, hj, rfl⟩ := h
  split
  · exact Or.inr ⟨j, ⟨k, hj⟩, rfl⟩
  · exact Or.inl ⟨k, hj⟩

theorem Page.AllUsed.modifyItem {p : Page} (h : p.AllUsed) (off : Nat) (f : Item → Item) : (p.modifyItem off f).AllUsed := by
  intro i hi
  rcases Page.mem_modify hi with hi | ⟨j, hj, rfl⟩
  · exact h i hi
  · exact h j hj

/-- Rewriting the item just placed is placing the rewritten item, when the length stays the same. -/
theorem Page.modifyItem_push (p : Page) (it : Item) (f : Item → Item) (hf : (f it).len = it.len) :
    (p.push it).modifyItem (p.linp.length + 1) f = p.push (f it) := by
  simp only [Page.modifyItem, Page.modify, Page.push, Nat.add_sub_cancel, hf]
  congr 1
  exact modify_concat_length _ _ _

/-! ## Headers -/

@[simp] theorem Page.maxOffset_writeAdjHeader (p : Page) (idx : Nat) (hdr : NodeAdjHeader) :
    (writeAdjHeader p idx hdr).maxOffset = p.maxOffset := rfl

@[simp] theorem Page.itemId_writeAdjHeader (p : Page) (idx : Nat) (hdr : NodeAdjHeader) (off : Nat) :
    (writeAdjHeader p idx hdr).itemId off = p.itemId off := rfl

theorem readAdjHeader_writeAdjHeader (p : Page) (idx i : Nat) (hdr : NodeAdjHeader) (h : (readAdjHeader p idx).isSome) :
    readAdjHeader (writeAdjHeader p idx hdr) i = if i = idx then some hdr else readAdjHeader p i := by
  have h : idx < p.special.length := by simpa [readAdjHeader] using h
  simp only [readAdjHeader, writeAdjHeader]
  by_cases he : i = idx
  · subst he
    rw [if_pos rfl, List.getElem?_set_self h]
  · rw [if_neg he, List.getElem?_set_ne (Ne.symm he)]

/-! ## Room -/

theorem Page.fits_iff {p : Page} {n : Nat} : p.fits n = true ↔ p.pdLower + itemIdSize + maxAlign n ≤ p.pdUpper := by
  rw [Page.fits, decide_eq_true_iff]
  simp only [pageFreeSpace, itemIdSize]
  omega

theorem maxAlign_le {n : Nat} : maxAlign n ≤ n + 7 := by
  simp only [maxAlign]
  omega

theorem le_maxAlign {n : Nat} : n ≤ maxAlign n := by
  simp only [maxAlign]
  omega

/-! ## Blocks -/

theorem getElem?_modifyBlock (rel : Relation) (blk b : Nat) (f : Page → Page) :
    (modifyBlock rel blk f)[b]? = if b = blk then rel[b]?.map f else rel[b]? := by
  simp only [modifyBlock, List.getElem?_modify]
  by_cases h : b = blk
  · subst h
    simp
  · simp [h, Ne.symm h]

@[simp] theorem length_modifyBlock (rel : Relation) (blk : Nat) (f : Page → Page) :
    (modifyBlock rel blk f).length = rel.length := by
  simp [modifyBlock]

theorem modifyBlock_append_left {rel : Relation} {blk : Nat} (rest : Relation) (f : Page → Page) (h : blk < rel.length) :
    modifyBlock (rel ++ rest) blk f = modifyBlock rel blk f ++ rest := by
  refine List.ext_getElem? fun b => ?_
  simp only [getElem?_modifyBlock, List.getElem?_append, length_modifyBlock]
  split
  · next hb => simp only [hb, h, if_true]
  · rfl

theorem modifyBlock_concat (rel : Relation) (p : Page) (f : Page → Page) :
    modifyBlock (rel ++ [p]) rel.length f = rel ++ [f p] := modify_concat_length rel p f

theorem mem_modifyBlock {rel : Relation} {blk : Nat} {f : Page → Page} {p : Page} (h : p ∈ modifyBlock rel blk f) :
    p ∈ rel ∨ ∃ q, rel[blk]? = some q ∧ p = f q := by
  obtain ⟨b, hb⟩ := List.mem_iff_getElem?.mp h
  rw [getElem?_modifyBlock] at hb
  split at hb
  · next he =>
    subst he
    obtain ⟨q, hq, rfl⟩ := Option.map_eq_some_iff.mp hb
    exact Or.inr ⟨q, hq, rfl⟩
  · exact Or.inl (List.mem_of_getElem? hb)

end PgEddy
