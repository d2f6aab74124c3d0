import Mathlib.Data.List.Basic
import Mathlib.Data.List.Forall2
import Mathlib.Data.List.Infix
import Mathlib.Data.List.Nodup
import Mathlib.Data.List.TakeWhile

/-!
# Lists

Facts about lists, options and computations that can fail, with nothing of the program in them:
what searches find when items are left out, permuted or replaced, how lists split, what texts of
several parts hold, and which operations respect a relation between the items of two lists.
-/

namespace PropDoc

variable {α β γ δ ε : Type}

/-! ### Searches -/

/-- Searches that agree on every item find the same. -/
theorem findSome?_congr {f g : α → Option β} {items : List α}
    (h : ∀ item ∈ items, f item = g item) : items.findSome? f = items.findSome? g := by
  induction items with
  | nil => rfl
  | cons item items ih =>
    rw [List.findSome?_cons, List.findSome?_cons, h item List.mem_cons_self,
      ih fun other hother ↦ h other (List.mem_cons_of_mem item hother)]

/-- Searching what passes a test is searching with the test. -/
theorem findSome?_filter (p : α → Bool) (f : α → Option β) (items : List α) :
    (items.filter p).findSome? f = items.findSome? fun item ↦ if p item then f item else none := by
  induction items with
  | nil => rfl
  | cons item items ih =>
    cases hp : p item with
    | true => simp only [List.filter_cons, hp, if_true, List.findSome?_cons, ih]
    | false => simp [hp, ih]

/-- An item in which nothing is found can be left out of a search. -/
theorem findSome?_eraseIdx {f : α → Option β} {items : List α}
    {index : Nat} (hindex : index < items.length) (hnone : f items[index] = none) :
    (items.eraseIdx index).findSome? f = items.findSome? f := by
  have hsplit : items.take index ++ items[index] :: items.drop (index + 1) = items := by
    rw [← List.drop_eq_getElem_cons hindex, List.take_append_drop]
  calc (items.eraseIdx index).findSome? f
      = (items.take index ++ items[index] :: items.drop (index + 1)).findSome? f := by
        rw [List.eraseIdx_eq_take_drop_succ, List.findSome?_append, List.findSome?_append,
          List.findSome?_cons, hnone]
    _ = items.findSome? f := by rw [hsplit]

/-- What is found is found at some position, and nothing before it. -/
theorem findSome?_eq_some_position {f : α → Option β} {items : List α}
    {result : β} (h : items.findSome? f = some result) :
    ∃ (position : Nat) (item : α), items[position]? = some item ∧ f item = some result ∧
      ∀ earlier < position, ∀ other, items[earlier]? = some other → f other = none := by
  obtain ⟨before, item, after, rfl, hitem, hbefore⟩ := List.findSome?_eq_some_iff.mp h
  refine ⟨before.length, item, by simp, hitem, ?_⟩
  intro earlier hearlier other hother
  rw [List.getElem?_append_left hearlier] at hother
  exact hbefore other (List.mem_of_getElem? hother)

/-- Where at most one item is a hit, the order of the items does not matter. -/
theorem findSome?_eq_of_perm {items items' : List α} {f : α → Option β} (hperm : items.Perm items')
    (hsole : items.Pairwise fun item other ↦ f item = none ∨ f other = none) :
    items.findSome? f = items'.findSome? f := by
  induction hperm with
  | nil => rfl
  | cons item hperm ih =>
    rw [List.findSome?_cons, List.findSome?_cons, ih (List.pairwise_cons.mp hsole).2]
  | swap first second rest =>
    have hone : f second = none ∨ f first = none :=
      (List.pairwise_cons.mp hsole).1 first List.mem_cons_self
    simp only [List.findSome?_cons]
    rcases hone with hnone | hnone
    · simp [hnone]
    · simp [hnone]
  | trans hleft hright ihleft ihright =>
    have hmiddle := hleft.pairwise hsole fun h ↦ h.symm
    exact (ihleft hsole).trans (ihright hmiddle)

/-- Where at most one item passes, the order of the items does not matter. -/
theorem find?_eq_of_perm {items items' : List α} {p : α → Bool} (hperm : items.Perm items')
    (hsole : items.Pairwise fun item other ↦ ¬ (p item = true ∧ p other = true)) :
    items.find? p = items'.find? p := by
  rw [List.find?_eq_findSome?_guard, List.find?_eq_findSome?_guard]
  apply findSome?_eq_of_perm hperm
  apply hsole.imp
  intro item other hone
  simp only [Option.guard_eq_none_iff]
  by_cases hitem : p item
  · exact .inr (by simpa [hitem] using hone)
  · exact .inl (by simpa using hitem)

/-- What fails a search can be left out of it. -/
theorem find?_filter_of_imp {keep p : α → Bool} {items : List α}
    (h : ∀ item ∈ items, p item = true → keep item = true) :
    (items.filter keep).find? p = items.find? p := by
  induction items with
  | nil => rfl
  | cons item items ih =>
    have hrest := ih fun other hother ↦ h other (List.mem_cons_of_mem item hother)
    rw [List.filter_cons, List.find?_cons, ← hrest]
    cases hitem : p item with
    | true => rw [if_pos (h item List.mem_cons_self hitem), List.find?_cons_of_pos hitem]
    | false =>
      split
      · rw [List.find?_cons_of_neg (by simp [hitem])]
      · rfl

/-! ### Parts of lists -/

/-- Items that give nothing can be left out. -/
theorem flatMap_filter_eq {keep : α → Bool} {items : List α} {f g : α → List β}
    (hkeep : ∀ item ∈ items, keep item = true → f item = g item)
    (hdrop : ∀ item ∈ items, keep item = false → g item = []) :
    (items.filter keep).flatMap f = items.flatMap g := by
  induction items with
  | nil => rfl
  | cons item items ih =>
    have hrest := ih (fun other hother ↦ hkeep other (List.mem_cons_of_mem item hother))
      fun other hother ↦ hdrop other (List.mem_cons_of_mem item hother)
    rw [List.flatMap_cons, ← hrest]
    cases hitem : keep item with
    | true =>
      rw [List.filter_cons_of_pos hitem, List.flatMap_cons, hkeep item List.mem_cons_self hitem]
    | false =>
      rw [List.filter_cons_of_neg (by simp [hitem]), hdrop item List.mem_cons_self hitem,
        List.nil_append]

/-- Two ways to pick from a list that pick from the same items agree exactly if they pick the same
from each. -/
theorem filterMap_eq_filterMap_iff {f g : α → Option β} {items : List α}
    (h : ∀ item ∈ items, (f item).isSome = (g item).isSome) :
    items.filterMap f = items.filterMap g ↔ ∀ item ∈ items, f item = g item := by
  induction items with
  | nil => simp
  | cons item items ih =>
    obtain ⟨hitem, hitems⟩ := List.forall_mem_cons.mp h
    rw [List.forall_mem_cons, ← ih hitems]
    cases hf : f item <;> cases hg : g item <;> simp_all

/-- With the same rest, the same is gathered exactly if the first items give the same. -/
theorem filterMap_cons_inj {f : α → Option β} {x y : α} {rest : List α} :
    (x :: rest).filterMap f = (y :: rest).filterMap f ↔ f x = f y := by
  rw [List.filterMap_cons, List.filterMap_cons]
  cases f x <;> cases f y <;> simp

/-- The items at the front that pass and those that pass after them are all that pass. -/
theorem takeWhile_append_filter_dropWhile (p : α → Bool) (items : List α) :
    items.takeWhile p ++ (items.dropWhile p).filter p = items.filter p := by
  have hfront : (items.takeWhile p).filter p = items.takeWhile p :=
    List.filter_eq_self.mpr fun _ ↦ List.mem_takeWhile_imp
  calc items.takeWhile p ++ (items.dropWhile p).filter p
      = (items.takeWhile p ++ items.dropWhile p).filter p := by rw [List.filter_append, hfront]
    _ = items.filter p := by rw [List.takeWhile_append_dropWhile]

/-- Where nothing passes after an item that fails, the items that pass come first. -/
theorem take_drop_countP {p : α → Bool} {items : List α}
    (h : items.Pairwise fun first second ↦ p second = true → p first = true) :
    (∀ item ∈ items.take (items.countP p), p item = true) ∧
      ∀ item ∈ items.drop (items.countP p), p item = false := by
  induction items with
  | nil => simp
  | cons item items ih =>
    obtain ⟨hitem, hitems⟩ := List.pairwise_cons.mp h
    cases hp : p item with
    | true =>
      rw [List.countP_cons_of_pos hp, List.take_succ_cons, List.drop_succ_cons,
        List.forall_mem_cons]
      exact ⟨⟨hp, (ih hitems).1⟩, (ih hitems).2⟩
    | false =>
      -- Nothing after the first item that fails passes, so nothing is counted.
      have hnone : ∀ other ∈ item :: items, p other = false := by
        rw [List.forall_mem_cons]
        refine ⟨hp, fun other hother ↦ ?_⟩
        rw [← Bool.not_eq_true]
        intro hpass
        rw [hitem other hother hpass] at hp
        cases hp
      have hcount : (item :: items).countP p = 0 := by
        rw [List.countP_eq_zero]
        simpa using hnone
      rw [hcount]
      exact ⟨by simp, by simpa using hnone⟩

/-- There is one way to split a list without repetitions at a member. -/
theorem split_unique {item : α} {before after before' after' : List α}
    (hnodup : (before ++ item :: after).Nodup)
    (h : before ++ item :: after = before' ++ item :: after') :
    before = before' ∧ after = after' := by
  rw [List.nodup_middle, List.nodup_cons, List.mem_append, not_or] at hnodup
  obtain ⟨hbefore, -, hafter⟩ := (List.append_cons_inj_of_notMem hnodup.1.1 hnodup.1.2).mp h
  exact ⟨hbefore, hafter⟩

/-- A list is split at its first item or at a later one. -/
theorem exists_split_cons_iff {p : List α → α → List α → Prop} (first : α)
    (others : List α) :
    (∃ before x after, first :: others = before ++ x :: after ∧ p before x after) ↔
      p [] first others ∨
        ∃ before x after, others = before ++ x :: after ∧ p (first :: before) x after := by
  constructor
  · rintro ⟨before, x, after, hsplit, hp⟩
    rcases List.cons_eq_append_iff.mp hsplit with ⟨rfl, hcons⟩ | ⟨before, rfl, hrest⟩
    · cases hcons
      exact .inl hp
    · exact .inr ⟨before, x, after, hrest, hp⟩
  · rintro (hp | ⟨before, x, after, rfl, hp⟩)
    · exact ⟨[], first, others, rfl, hp⟩
    · exact ⟨first :: before, x, after, rfl, hp⟩

/-- The items of a list are numbered in their order. -/
theorem pairwise_zipIdx (items : List α) :
    items.zipIdx.Pairwise fun first second ↦ first.2 < second.2 := by
  have hrange : (items.zipIdx.map Prod.snd).Pairwise (· < ·) := by
    rw [List.zipIdx_map_snd]
    exact List.pairwise_lt_range' 1
  exact List.pairwise_map.mp hrange

/-! ### Texts of several parts -/

/-- Joined items are the first, then each other one with the separator before it. -/
theorem intercalate_cons_eq_flatMap (separator item : List α) (items : List (List α)) :
    separator.intercalate (item :: items) = item ++ items.flatMap (separator ++ ·) := by
  induction items generalizing item with
  | nil => simp
  | cons next items ih => rw [List.intercalate_cons_cons, ih]; simp

/-- What is in joined items is in the separator or in an item. -/
theorem mem_of_mem_intercalate {separator : List α} {items : List (List α)} {c : α}
    (h : c ∈ separator.intercalate items) : c ∈ separator ∨ ∃ item ∈ items, c ∈ item := by
  induction items with
  | nil => cases h
  | cons first items ih =>
    rw [List.exists_mem_cons_iff]
    cases items with
    | nil =>
      rw [List.intercalate_singleton] at h
      exact .inr (.inl h)
    | cons second items =>
      rw [List.intercalate_cons_cons, List.mem_append, List.mem_append] at h
      rcases h with (hfirst | hseparator) | hrest
      · exact .inr (.inl hfirst)
      · exact .inl hseparator
      · exact (ih hrest).imp_right .inr

/-- No piece between separators holds a separator. -/
theorem not_mem_of_mem_splitOn {separator : Char} {cs piece : List Char}
    (h : piece ∈ cs.splitOn separator) : separator ∉ piece := by
  induction cs generalizing piece with
  | nil =>
    rw [List.splitOn_nil, List.mem_singleton] at h
    simp [h]
  | cons c cs ih =>
    rw [List.splitOn_cons_eq_if_modifyHead] at h
    split at h
    · rcases List.mem_cons.mp h with rfl | hrest
      · exact List.not_mem_nil
      · exact ih hrest
    · next hc =>
      obtain ⟨first, rest, hsplit⟩ := List.exists_cons_of_ne_nil (List.splitOn_ne_nil separator cs)
      rw [hsplit] at h ih
      rw [List.modifyHead_cons, List.mem_cons] at h
      rcases h with rfl | hrest
      · have hfirst := ih List.mem_cons_self
        simp only [List.mem_cons, not_or]
        exact ⟨fun heq ↦ hc (by simp [heq.symm]), hfirst⟩
      · exact ih (List.mem_cons_of_mem first hrest)

/-- Splitting gives one piece more than there are separators. -/
theorem length_splitOn (c : Char) (cs : List Char) :
    (cs.splitOn c).length = cs.count c + 1 := by
  induction cs with
  | nil => rfl
  | cons d cs ih =>
    rw [List.splitOn_cons_eq_if_modifyHead, List.count_cons]
    split <;> simp [ih]

/-! ### Related lists -/

section

variable {r : α → β → Prop} {s : γ → δ → Prop} {p : α → Bool} {q : β → Bool} {f : α → γ} {g : β → γ}
  {first : List α} {second : List β}

/-- The first items of two related lists that pass are related. -/
theorem rel_find? (h : List.Forall₂ r first second) (hpq : ∀ a b, r a b → p a = q b) :
    Option.Rel r (first.find? p) (second.find? q) := by
  induction h with
  | nil => exact .none
  | @cons a b _ _ hab _ ih =>
    rw [List.find?_cons, List.find?_cons, hpq a b hab]
    split
    · exact .some hab
    · exact ih

/-- What passes of two related lists is related. -/
theorem forall₂_filter (h : List.Forall₂ r first second) (hpq : ∀ a b, r a b → p a = q b) :
    List.Forall₂ r (first.filter p) (second.filter q) :=
  List.rel_filter (fun a b hab ↦ Bool.eq_iff_iff.mp (hpq a b hab)) h

/-- The first items of related lists are related. -/
theorem rel_head? (h : List.Forall₂ r first second) :
    Option.Rel r first.head? second.head? := by
  cases h with
  | nil => exact .none
  | cons hab _ => exact .some hab

/-- The last items of related lists are related. -/
theorem rel_getLast? (h : List.Forall₂ r first second) :
    Option.Rel r first.getLast? second.getLast? := by
  rw [List.getLast?_eq_head?_reverse, List.getLast?_eq_head?_reverse]
  exact rel_head? (List.forall₂_reverse_iff.mpr h)

/-- Functions that agree on related items give related lists the same values. -/
theorem map_eq_of_forall₂ (h : List.Forall₂ r first second)
    (hfg : ∀ a b, r a b → f a = g b) : first.map f = second.map g := by
  induction h with
  | nil => rfl
  | @cons a b _ _ hab _ ih => rw [List.map_cons, List.map_cons, hfg a b hab, ih]

/-- Functions that agree on related items have the same values on related lists. -/
theorem filterMap_eq_of_forall₂ {f : α → Option γ} {g : β → Option γ}
    (h : List.Forall₂ r first second) (hfg : ∀ a b, r a b → f a = g b) :
    first.filterMap f = second.filterMap g := by
  induction h with
  | nil => rfl
  | @cons a b _ _ hab _ ih => rw [List.filterMap_cons, List.filterMap_cons, hfg a b hab, ih]

/-- Computations that agree on related values agree after related ones. -/
theorem bind_eq_of_rel {found : Option α} {found' : Option β} {f : α → Option γ}
    {g : β → Option γ} (h : Option.Rel r found found') (hfg : ∀ a b, r a b → f a = g b) :
    found.bind f = found'.bind g := by
  cases h with
  | none => rfl
  | some hab => rw [Option.bind_some, Option.bind_some, hfg _ _ hab]

/-- Functions that agree on related values agree on related options. -/
theorem map_eq_of_rel {found : Option α} {found' : Option β} (h : Option.Rel r found found')
    (hfg : ∀ a b, r a b → f a = g b) : found.map f = found'.map g := by
  cases h with
  | none => rfl
  | some hab => rw [Option.map_some, Option.map_some, hfg _ _ hab]

/-- Computations that keep values related keep options related. -/
theorem rel_bind {x : Option α} {y : Option β} (h : Option.Rel r x y)
    {f : α → Option γ} {g : β → Option δ} (hf : ∀ a b, r a b → Option.Rel s (f a) (g b)) :
    Option.Rel s (x.bind f) (y.bind g) := by
  cases h with
  | none => exact .none
  | some hab => exact hf _ _ hab

/-- Related options have related alternatives. -/
theorem rel_or {x x' : Option α} {y y' : Option β} (h : Option.Rel r x y)
    (h' : Option.Rel r x' y') : Option.Rel r (x.or x') (y.or y') := by
  cases h with
  | none => exact h'
  | some hab => exact .some hab

/-- Searches that are related for every item find related values. -/
theorem rel_findSome? {items : List γ} {f : γ → Option α} {g : γ → Option β}
    (h : ∀ item ∈ items, Option.Rel r (f item) (g item)) :
    Option.Rel r (items.findSome? f) (items.findSome? g) := by
  induction items with
  | nil => exact .none
  | cons item items ih =>
    have hrest := ih fun other hother ↦ h other (List.mem_cons_of_mem item hother)
    have hitem := h item List.mem_cons_self
    rw [List.findSome?_cons, List.findSome?_cons]
    cases hf : f item <;> cases hg : g item <;> rw [hf, hg] at hitem
    · exact hrest
    · cases hitem
    · cases hitem
    · exact hitem

end

/-! ### Computations that can fail -/

/-- A filter that never fails keeps what passes. -/
theorem filterAuxM_eq_ok {p : α → Except ε Bool} {q : α → Bool}
    {items : List α} (h : ∀ item ∈ items, p item = .ok (q item)) (kept : List α) :
    List.filterAuxM p items kept = .ok ((items.filter q).reverse ++ kept) := by
  induction items generalizing kept with
  | nil => rfl
  | cons item items ih =>
    have hrest := fun kept ↦ ih (fun other hother ↦ h other (List.mem_cons_of_mem item hother)) kept
    rw [List.filterAuxM, h item List.mem_cons_self]
    change List.filterAuxM p items (bif q item then item :: kept else kept) = _
    rw [hrest]
    cases hq : q item with
    | true => simp [hq]
    | false => simp [hq]

/-- A filter fails with the first item that fails. -/
theorem filterAuxM_eq_error {p : α → Except ε Bool} {q : α → Bool}
    {before after : List α} {item : α} {error : ε}
    (hbefore : ∀ other ∈ before, p other = .ok (q other)) (hitem : p item = .error error)
    (kept : List α) :
    List.filterAuxM p (before ++ item :: after) kept = .error error := by
  induction before generalizing kept with
  | nil =>
    rw [List.nil_append, List.filterAuxM, hitem]
    rfl
  | cons other before ih =>
    rw [List.cons_append, List.filterAuxM, hbefore other List.mem_cons_self]
    exact ih (fun other hother ↦ hbefore other (List.mem_cons_of_mem _ hother)) _

/-- Filtering renamed items is renaming what is kept of the items. -/
theorem filterAuxM_map {f : α → β} {p : β → Except ε Bool}
    {q : α → Except ε Bool} {items : List α} (h : ∀ item ∈ items, p (f item) = q item)
    (kept : List α) :
    List.filterAuxM p (items.map f) (kept.map f) =
      (List.filterAuxM q items kept).map (List.map f) := by
  induction items generalizing kept with
  | nil => rfl
  | cons item items ih =>
    have hrest := ih fun other hother ↦ h other (List.mem_cons_of_mem item hother)
    rw [List.map_cons, List.filterAuxM, List.filterAuxM, h item List.mem_cons_self]
    cases q item with
    | error error => rfl
    | ok keeps =>
      cases keeps with
      | true => exact hrest (item :: kept)
      | false => exact hrest kept

/-- Filtering renamed items is renaming what is kept of the items. -/
theorem filterM_map {f : α → β} {p : β → Except ε Bool}
    {q : α → Except ε Bool} {items : List α} (h : ∀ item ∈ items, p (f item) = q item) :
    (items.map f).filterM p = (items.filterM q).map (List.map f) := by
  have hkept := filterAuxM_map h []
  rw [List.map_nil] at hkept
  rw [List.filterM, List.filterM, hkept]
  cases List.filterAuxM q items [] with
  | error error => rfl
  | ok kept => exact congrArg Except.ok List.map_reverse.symm

/-- What follows a computation matters only where it succeeds. -/
theorem bind_congr_of_ok {first : Except ε α}
    {next next' : α → Except ε β} (h : ∀ value, first = .ok value → next value = next' value) :
    (first >>= next) = (first >>= next') := by
  cases first with
  | error error => rfl
  | ok value => exact h value rfl

/-- An error that no step gives is not given by the steps in turn. -/
theorem bind_ne_error {first : Except ε α} {next : α → Except ε β}
    {error : ε} (hfirst : first ≠ .error error)
    (hnext : ∀ value, first = .ok value → next value ≠ .error error) :
    (first >>= next) ≠ .error error := by
  cases first with
  | error other => exact fun h ↦ hfirst (congrArg Except.error (Except.error.inj h))
  | ok value => exact hnext value rfl

end PropDoc
