import Mathlib.Data.List.Basic

/-!
# Lines of queues

Items move through a line of queues: what is taken from the head of one queue joins the end of the next.
Read from the far end of the line, the contents of all its queues are one queue, to which such a move
makes no difference.

Traffic is what happens in a set of queues that need not form a line. Whatever share of it stays on one line
comes out in the order in which it went in.
-/

universe u v w

namespace Pipeline

variable {ι : Type u} {α : Type v}

/-- What is on its way, the item that has come furthest first. -/
def content (stage : ι → List α) : List ι → List α
  | [] => []
  | i :: line => content stage line ++ stage i

/-- Each queue of the line hands over to the next one, and the last one to none. -/
def Line (succ : ι → Option ι) : List ι → Prop
  | [] => True
  | [i] => succ i = none
  | i :: j :: line => succ i = some j ∧ Line succ (j :: line)

/-- An item leaves the head of queue `i` and, if there is a next queue, joins it. -/
structure Moved (succ : ι → Option ι) (stage stage' : ι → List α) (i : ι) (x : α) : Prop where
  head : stage i = x :: stage' i
  next : ∀ j, succ i = some j → j ≠ i → stage' j = stage j ++ [x]
  others : ∀ k, k ≠ i → succ i ≠ some k → stage' k = stage k

variable {succ : ι → Option ι} {stage stage' : ι → List α} {line : List ι} {i : ι} {x : α}

@[simp] theorem content_nil : content stage [] = [] := rfl

@[simp] theorem content_cons (i : ι) (line : List ι) : content stage (i :: line) = content stage line ++ stage i := rfl

theorem content_congr (h : ∀ i ∈ line, stage' i = stage i) : content stage' line = content stage line := by
  induction line with
  | nil => rfl
  | cons i line ih =>
      obtain ⟨hi, hline⟩ := List.forall_mem_cons.mp h
      rw [content_cons, content_cons, ih hline, hi]

theorem content_eq_nil_iff : content stage line = [] ↔ ∀ i ∈ line, stage i = [] := by
  induction line with
  | nil => simp
  | cons i line ih =>
      rw [content_cons, List.append_eq_nil_iff, ih, List.forall_mem_cons]
      exact and_comm

/-- New items go into the first queue. -/
theorem content_push (hnodup : (i :: line).Nodup) {items : List α} (hfirst : stage' i = stage i ++ items)
    (hothers : ∀ k ∈ line, k ≠ i → stage' k = stage k) :
    content stage' (i :: line) = content stage (i :: line) ++ items := by
  have hi := (List.nodup_cons.mp hnodup).1
  have hrest : content stage' line = content stage line := by
    apply content_congr
    intro k hk
    exact hothers k hk fun he => hi (he ▸ hk)
  rw [content_cons, content_cons, hrest, hfirst, List.append_assoc]

theorem Line.tail {j : ι} (h : Line succ (j :: line)) : Line succ line := by
  cases line with
  | nil => trivial
  | cons k line => exact h.2

/-- What a queue of the line hands over to is in the line. -/
theorem Line.mem_of_succ {j : ι} (h : Line succ line) (hi : i ∈ line) (hsucc : succ i = some j) : j ∈ line := by
  induction line with
  | nil => cases hi
  | cons k line ih =>
      cases line with
      | nil =>
          obtain rfl := List.mem_singleton.mp hi
          have hlast : succ i = none := h
          rw [hlast] at hsucc
          cases hsucc
      | cons l line =>
          rcases List.mem_cons.mp hi with rfl | hmem
          · obtain rfl := Option.some.inj (h.1.symm.trans hsucc)
            exact List.mem_cons_of_mem _ List.mem_cons_self
          · exact List.mem_cons_of_mem _ (ih h.2 hmem)

/-- Moving an item within the line leaves its contents as they are; from the last queue it goes out. -/
theorem Moved.content (hmoved : Moved succ stage stage' i x) (hline : Line succ line) (hnodup : line.Nodup) (hi : i ∈ line) :
    content stage line = (if succ i = none then [x] else []) ++ Pipeline.content stage' line := by
  induction line with
  | nil => cases hi
  | cons k line ih =>
      obtain ⟨hk, hnodup'⟩ := List.nodup_cons.mp hnodup
      by_cases hik : i = k
      · subst hik
        cases line with
        | nil =>
            have hlast : succ i = none := hline
            rw [if_pos hlast, content_cons, content_cons, hmoved.head]
            rfl
        | cons j line =>
            obtain ⟨hj, -⟩ := hline
            have hji : j ≠ i := fun he => hk (he ▸ List.mem_cons_self)
            have hj' : j ∉ line := (List.nodup_cons.mp hnodup').1
            have hrest : Pipeline.content stage' line = Pipeline.content stage line := by
              apply content_congr
              intro l hl
              apply hmoved.others l
              · exact fun he => hk (he ▸ List.mem_cons_of_mem _ hl)
              · intro he
                exact hj' (Option.some.inj (hj.symm.trans he) ▸ hl)
            rw [hj, if_neg (Option.some_ne_none j), List.nil_append]
            simp only [content_cons]
            rw [hmoved.head, hmoved.next j hj hji, hrest]
            simp
      · have hi' : i ∈ line := (List.mem_cons.mp hi).resolve_left hik
        have hsame : stage' k = stage k := by
          apply hmoved.others k (Ne.symm hik)
          exact fun hsucc => hk (hline.tail.mem_of_succ hi' hsucc)
        rw [content_cons, content_cons, ih hline.tail hnodup' hi', hsame, List.append_assoc]

/-- What is lost on the way leaves the rest in order. -/
theorem content_sublist (h : ∀ i ∈ line, (stage' i).Sublist (stage i)) :
    (content stage' line).Sublist (content stage line) := by
  induction line with
  | nil => exact List.Sublist.refl _
  | cons i line ih =>
      obtain ⟨hi, hline⟩ := List.forall_mem_cons.mp h
      exact (ih hline).append hi

theorem length_content_of_head (hnodup : line.Nodup) (hi : i ∈ line) (hhead : stage i = x :: stage' i)
    (hothers : ∀ k, k ≠ i → stage' k = stage k) : (content stage line).length = (content stage' line).length + 1 := by
  induction line with
  | nil => cases hi
  | cons k line ih =>
      obtain ⟨hk, hnodup'⟩ := List.nodup_cons.mp hnodup
      rw [content_cons, content_cons, List.length_append, List.length_append]
      by_cases hik : i = k
      · subst hik
        have hrest : content stage' line = content stage line := by
          apply content_congr
          intro l hl
          exact hothers l fun he => hk (he ▸ hl)
        rw [hrest, hhead, List.length_cons]
        omega
      · rw [ih hnodup' ((List.mem_cons.mp hi).resolve_left hik), hothers k (Ne.symm hik)]
        omega

/-! ### Traffic -/

/-- The items in the queues `ι`, those that were put in, those that came out at each end `κ` and those that were
lost. -/
@[ext] structure Traffic (ι : Type u) (κ : Type w) (α : Type v) where
  stage : ι → List α
  sent : List α
  received : κ → List α
  lost : List α

/-- What happens to an item. -/
inductive Happening (ι : Type u) (κ : Type w) (α : Type v) where
  | nothing
  | enter (i : ι) (x : α)
  | refuse (x : α)
  | move (i j : ι) (x : α)
  | arrive (i : ι) (k : κ) (x : α)
  | lose (i : ι) (x : α)

namespace Happening

variable {κ : Type w}

def item : Happening ι κ α → Option α
  | nothing => none
  | enter _ x => some x
  | refuse x => some x
  | move _ _ x => some x
  | arrive _ _ x => some x
  | lose _ x => some x

end Happening

/-- An item leaves the head of queue `i`, and the queues outside `into` are the same otherwise. -/
structure Left (stage stage' : ι → List α) (i : ι) (x : α) (into : Option ι) : Prop where
  head : stage i = x :: stage' i
  others : ∀ k, k ≠ i → into ≠ some k → stage' k = stage k

namespace Traffic

variable {κ : Type w}

def empty : Traffic ι κ α where
  stage := fun _ => []
  sent := []
  received := fun _ => []
  lost := []

/-- What a happening does to the traffic. -/
inductive Step (t t' : Traffic ι κ α) : Happening ι κ α → Prop where
  | nothing (hsame : t' = t) : Step t t' .nothing
  | enter {i : ι} {x : α} (hin : t'.stage i = t.stage i ++ [x]) (hothers : ∀ k, k ≠ i → t'.stage k = t.stage k)
      (hsent : t'.sent = t.sent ++ [x]) (hreceived : t'.received = t.received) (hlost : t'.lost = t.lost) :
      Step t t' (.enter i x)
  | refuse {x : α} (hstage : t'.stage = t.stage) (hsent : t'.sent = t.sent ++ [x])
      (hreceived : t'.received = t.received) (hlost : t'.lost = t.lost ++ [x]) : Step t t' (.refuse x)
  | move {i j : ι} {x : α} (hne : j ≠ i) (hleft : Left t.stage t'.stage i x (some j))
      (hin : t'.stage j = t.stage j ++ [x]) (hsent : t'.sent = t.sent) (hreceived : t'.received = t.received)
      (hlost : t'.lost = t.lost) : Step t t' (.move i j x)
  | arrive {i : ι} {k : κ} {x : α} (hleft : Left t.stage t'.stage i x none) (hsent : t'.sent = t.sent)
      (hin : t'.received k = t.received k ++ [x]) (hothers : ∀ l, l ≠ k → t'.received l = t.received l)
      (hlost : t'.lost = t.lost) : Step t t' (.arrive i k x)
  | lose {i : ι} {x : α} (hleft : Left t.stage t'.stage i x none) (hsent : t'.sent = t.sent)
      (hreceived : t'.received = t.received) (hlost : t'.lost = t.lost ++ [x]) : Step t t' (.lose i x)

variable {t t' : Traffic ι κ α} {event : Happening ι κ α}

theorem mem_of_left_of_mem {into : Option ι} (hleft : Left stage stage' i x into) {k : ι} (hinto : into ≠ some k) {y : α}
    (hy : y ∈ stage' k) : y ∈ stage k := by
  by_cases hk : k = i
  · rw [hk, hleft.head]
    exact List.mem_cons_of_mem _ (hk ▸ hy)
  · rwa [← hleft.others k hk hinto]

/-- What is on its way has been sent. -/
theorem Step.stage_subset_sent (h : Step t t' event) (hsent : ∀ i, t.stage i ⊆ t.sent) : ∀ i, t'.stage i ⊆ t'.sent := by
  intro k y hy
  cases h with
  | nothing hsame => exact hsame ▸ hsent k (hsame ▸ hy)
  | @enter i x hin hothers hsent' hreceived hlost =>
      rw [hsent']
      by_cases hk : k = i
      · subst hk
        rw [hin] at hy
        rcases List.mem_append.mp hy with hy | hy
        · exact List.mem_append_left _ (hsent k hy)
        · exact List.mem_append_right _ hy
      · rw [hothers k hk] at hy
        exact List.mem_append_left _ (hsent k hy)
  | refuse hstage hsent' hreceived hlost =>
      rw [hsent']
      exact List.mem_append_left _ (hsent k (hstage ▸ hy))
  | @move i j x hne hleft hin hsent' hreceived hlost =>
      rw [hsent']
      by_cases hk : j = k
      · subst hk
        rw [hin] at hy
        rcases List.mem_append.mp hy with hy | hy
        · exact hsent j hy
        · obtain rfl := List.mem_singleton.mp hy
          apply hsent i
          rw [hleft.head]
          exact List.mem_cons_self
      · exact hsent k (mem_of_left_of_mem hleft (fun he => hk (Option.some.inj he)) hy)
  | arrive hleft hsent' hin hothers hlost =>
      rw [hsent']
      exact hsent k (mem_of_left_of_mem hleft (by simp) hy)
  | lose hleft hsent' hreceived hlost =>
      rw [hsent']
      exact hsent k (mem_of_left_of_mem hleft (by simp) hy)

/-- What has been sent stays so. -/
theorem Step.sent_prefix (h : Step t t' event) : t.sent <+: t'.sent := by
  cases h with
  | nothing hsame => exact hsame ▸ List.prefix_rfl
  | enter _ _ hsent _ _ =>
      rw [hsent]
      exact List.prefix_append _ _
  | refuse _ hsent _ _ =>
      rw [hsent]
      exact List.prefix_append _ _
  | move _ _ _ hsent _ _ => exact hsent ▸ List.prefix_rfl
  | arrive _ hsent _ _ _ => exact hsent ▸ List.prefix_rfl
  | lose _ hsent _ _ => exact hsent ▸ List.prefix_rfl

/-! ### A share of the traffic -/

/-- The traffic of the items that satisfy `p`. -/
def share (p : α → Bool) (t : Traffic ι κ α) : Traffic ι κ α where
  stage := fun i => (t.stage i).filter p
  sent := t.sent.filter p
  received := fun k => (t.received k).filter p
  lost := t.lost.filter p

theorem filter_snoc_of_pos {p : α → Bool} (l : List α) (hx : p x = true) : (l ++ [x]).filter p = l.filter p ++ [x] := by
  rw [List.filter_append, List.filter_cons_of_pos hx, List.filter_nil]

theorem filter_snoc_of_neg {p : α → Bool} (l : List α) (hx : ¬ p x = true) : (l ++ [x]).filter p = l.filter p := by
  rw [List.filter_append, List.filter_cons_of_neg hx, List.filter_nil, List.append_nil]

theorem left_filter_of_pos {p : α → Bool} {into : Option ι} (h : Left stage stage' i x into) (hx : p x = true) :
    Left (fun k => (stage k).filter p) (fun k => (stage' k).filter p) i x into where
  head := by rw [h.head, List.filter_cons_of_pos hx]
  others := by
    intro k hk hinto
    rw [h.others k hk hinto]

/-- What happens to an item of the share happens to the share. -/
theorem Step.share_of_mem {p : α → Bool} (h : Step t t' event) {x : α} (hitem : event.item = some x) (hx : p x = true) :
    Step (t.share p) (t'.share p) event := by
  cases h with
  | nothing hsame => cases hitem
  | enter hin hothers hsent hreceived hlost =>
      obtain rfl := Option.some.inj hitem
      apply Step.enter
      · simp only [share, hin, filter_snoc_of_pos _ hx]
      · intro k hk
        simp only [share, hothers k hk]
      · simp only [share, hsent, filter_snoc_of_pos _ hx]
      · simp only [share, hreceived]
      · simp only [share, hlost]
  | refuse hstage hsent hreceived hlost =>
      obtain rfl := Option.some.inj hitem
      apply Step.refuse
      · simp only [share, hstage]
      · simp only [share, hsent, filter_snoc_of_pos _ hx]
      · simp only [share, hreceived]
      · simp only [share, hlost, filter_snoc_of_pos _ hx]
  | move hne hleft hin hsent hreceived hlost =>
      obtain rfl := Option.some.inj hitem
      apply Step.move hne (left_filter_of_pos hleft hx)
      · simp only [share, hin, filter_snoc_of_pos _ hx]
      · simp only [share, hsent]
      · simp only [share, hreceived]
      · simp only [share, hlost]
  | arrive hleft hsent hin hothers hlost =>
      obtain rfl := Option.some.inj hitem
      apply Step.arrive (left_filter_of_pos hleft hx)
      · simp only [share, hsent]
      · simp only [share, hin, filter_snoc_of_pos _ hx]
      · intro l hl
        simp only [share, hothers l hl]
      · simp only [share, hlost]
  | lose hleft hsent hreceived hlost =>
      obtain rfl := Option.some.inj hitem
      apply Step.lose (left_filter_of_pos hleft hx)
      · simp only [share, hsent]
      · simp only [share, hreceived]
      · simp only [share, hlost, filter_snoc_of_pos _ hx]

theorem left_filter_of_neg {p : α → Bool} {into : Option ι} (h : Left stage stage' i x into) (hx : ¬ p x = true) {k : ι}
    (hinto : into ≠ some k) : (stage' k).filter p = (stage k).filter p := by
  by_cases hk : k = i
  · subst hk
    rw [h.head, List.filter_cons_of_neg hx]
  · rw [h.others k hk hinto]

/-- What happens to another item makes no difference to the share. -/
theorem Step.share_of_not_mem {p : α → Bool} (h : Step t t' event) (hother : ∀ x, event.item = some x → ¬ p x = true) :
    t'.share p = t.share p := by
  cases h with
  | nothing hsame => rw [hsame]
  | @enter i x hin hothers hsent hreceived hlost =>
      have hx := hother _ rfl
      apply Traffic.ext
      · funext k
        simp only [share]
        by_cases hk : k = i
        · rw [hk, hin, filter_snoc_of_neg _ hx]
        · rw [hothers k hk]
      · simp only [share, hsent, filter_snoc_of_neg _ hx]
      · simp only [share, hreceived]
      · simp only [share, hlost]
  | refuse hstage hsent hreceived hlost =>
      have hx := hother _ rfl
      apply Traffic.ext
      · simp only [share, hstage]
      · simp only [share, hsent, filter_snoc_of_neg _ hx]
      · simp only [share, hreceived]
      · simp only [share, hlost, filter_snoc_of_neg _ hx]
  | @move i j x hne hleft hin hsent hreceived hlost =>
      have hx := hother _ rfl
      apply Traffic.ext
      · funext k
        simp only [share]
        by_cases hk : j = k
        · rw [← hk, hin, filter_snoc_of_neg _ hx]
        · exact left_filter_of_neg hleft hx fun he => hk (Option.some.inj he)
      · simp only [share, hsent]
      · simp only [share, hreceived]
      · simp only [share, hlost]
  | @arrive i k x hleft hsent hin hothers hlost =>
      have hx := hother _ rfl
      apply Traffic.ext
      · funext l
        exact left_filter_of_neg hleft hx (by simp)
      · simp only [share, hsent]
      · funext l
        simp only [share]
        by_cases hl : l = k
        · rw [hl, hin, filter_snoc_of_neg _ hx]
        · rw [hothers l hl]
      · simp only [share, hlost]
  | lose hleft hsent hreceived hlost =>
      have hx := hother _ rfl
      apply Traffic.ext
      · funext l
        exact left_filter_of_neg hleft hx (by simp)
      · simp only [share, hsent]
      · simp only [share, hreceived]
      · simp only [share, hlost, filter_snoc_of_neg _ hx]

/-! ### Traffic on one line -/

/-- All items are on the line, and what has come out at `sink` followed by what is still on its way is what went
in, in the same order, but for what was lost. -/
structure Ordered (line : List ι) (sink : κ) (t : Traffic ι κ α) : Prop where
  offLine : ∀ i, i ∉ line → t.stage i = []
  elsewhere : ∀ k, k ≠ sink → t.received k = []
  order : (t.received sink ++ content t.stage line).Sublist t.sent
  count : t.sent.length = (t.received sink).length + (content t.stage line).length + t.lost.length

theorem ordered_empty (line : List ι) (sink : κ) : Ordered line sink (empty : Traffic ι κ α) := by
  have hnone : content (empty : Traffic ι κ α).stage line = [] := content_eq_nil_iff.mpr fun _ _ => rfl
  refine ⟨fun _ _ => rfl, fun _ _ => rfl, ?_, ?_⟩
  · rw [hnone]
    exact List.Sublist.refl _
  · rw [hnone]
    rfl

/-- The happening follows the line: items go in at its first queue, from one queue to the next and out of the
last one at `sink`. -/
def Follows (succ : ι → Option ι) (line : List ι) (sink : κ) : Happening ι κ α → Prop
  | .enter i _ => line.head? = some i
  | .move i j _ => i ∈ line → succ i = some j
  | .arrive i k _ => i ∈ line → succ i = none ∧ k = sink
  | _ => True

theorem mem_of_left {into : Option ι} (hoff : ∀ i, i ∉ line → stage i = []) (hleft : Left stage stage' i x into) :
    i ∈ line := by
  by_contra hout
  have hhead := hleft.head
  rw [hoff i hout] at hhead
  cases hhead

/-- What leaves the line altogether. -/
theorem left_offLine {k : ι} (hoff : ∀ i, i ∉ line → stage i = []) (hleft : Left stage stage' i x none) (hk : k ∉ line) :
    stage' k = [] := by
  rw [hleft.others k (fun he => hk (he ▸ mem_of_left hoff hleft)) (by simp)]
  exact hoff k hk

theorem left_sublist (hleft : Left stage stage' i x none) : (content stage' line).Sublist (content stage line) := by
  apply content_sublist
  intro k _
  by_cases hk : k = i
  · rw [hk, hleft.head]
    exact List.sublist_cons_self x _
  · rw [hleft.others k hk (by simp)]

theorem Ordered.step {sink : κ} (hline : Line succ line) (hnodup : line.Nodup) (h : Ordered line sink t)
    (hstep : Step t t' event) (hfollows : Follows succ line sink event) : Ordered line sink t' := by
  cases hstep with
  | nothing hsame => exact hsame ▸ h
  | @enter i x hin hothers hsent hreceived hlost =>
      obtain ⟨rest, rfl⟩ : ∃ rest, line = i :: rest := by
        cases line with
        | nil => cases hfollows
        | cons j rest => exact ⟨rest, by rw [Option.some.inj hfollows]⟩
      have hcontent := content_push hnodup hin fun k _ hk => hothers k hk
      refine ⟨fun k hk => ?_, fun k hk => ?_, ?_, ?_⟩
      · rw [hothers k fun he => hk (he ▸ List.mem_cons_self)]
        exact h.offLine k hk
      · rw [hreceived]
        exact h.elsewhere k hk
      · rw [hreceived, hcontent, hsent, ← List.append_assoc]
        exact h.order.append (List.Sublist.refl _)
      · rw [hreceived, hcontent, hsent, hlost, List.length_append, List.length_append, h.count]
        omega
  | refuse hstage hsent hreceived hlost =>
      refine ⟨hstage ▸ h.offLine, hreceived ▸ h.elsewhere, ?_, ?_⟩
      · rw [hreceived, hstage, hsent]
        exact h.order.trans (List.sublist_append_left _ _)
      · rw [hreceived, hstage, hsent, hlost, List.length_append, List.length_append, h.count]
        omega
  | @move i j x hne hleft hin hsent hreceived hlost =>
      have hi := mem_of_left h.offLine hleft
      have hsucc : succ i = some j := hfollows hi
      have hcontent : content t.stage line = content t'.stage line := by
        have hmoved : Moved succ t.stage t'.stage i x := by
          refine ⟨hleft.head, fun k hk _ => ?_, fun k hk hother => ?_⟩
          · rw [← Option.some.inj (hsucc.symm.trans hk)]
            exact hin
          · exact hleft.others k hk fun he => hother (hsucc.trans he)
        have hsame := hmoved.content hline hnodup hi
        rwa [hsucc, if_neg (Option.some_ne_none j), List.nil_append] at hsame
      refine ⟨fun k hk => ?_, hreceived ▸ h.elsewhere, ?_, ?_⟩
      · have hki : k ≠ i := fun he => hk (he ▸ hi)
        have hkj : some j ≠ some k := fun he => hk (Option.some.inj he ▸ hline.mem_of_succ hi hsucc)
        rw [hleft.others k hki hkj]
        exact h.offLine k hk
      · rw [hreceived, hsent, ← hcontent]
        exact h.order
      · rw [hreceived, hsent, hlost, ← hcontent]
        exact h.count
  | @arrive i k x hleft hsent hin hothers hlost =>
      have hi := mem_of_left h.offLine hleft
      obtain ⟨hsucc, rfl⟩ := hfollows hi
      have hcontent : content t.stage line = [x] ++ content t'.stage line := by
        have hmoved : Moved succ t.stage t'.stage i x := by
          refine ⟨hleft.head, fun l hl _ => ?_, fun l hl _ => hleft.others l hl (by simp)⟩
          rw [hsucc] at hl
          cases hl
        have hout := hmoved.content hline hnodup hi
        rwa [if_pos hsucc] at hout
      have horder := h.order
      have hcount := h.count
      rw [hcontent] at horder hcount
      refine ⟨fun l hl => left_offLine h.offLine hleft hl, fun l hl => ?_, ?_, ?_⟩
      · rw [hothers l hl]
        exact h.elsewhere l hl
      · rw [hin, hsent, List.append_assoc]
        exact horder
      · rw [hin, hsent, hlost, hcount, List.length_append, List.length_append]
        omega
  | @lose i x hleft hsent hreceived hlost =>
      have hi := mem_of_left h.offLine hleft
      have hlength := length_content_of_head hnodup hi hleft.head fun k hk => hleft.others k hk (by simp)
      refine ⟨fun l hl => left_offLine h.offLine hleft hl, hreceived ▸ h.elsewhere, ?_, ?_⟩
      · rw [hreceived, hsent]
        exact ((List.Sublist.refl _).append (left_sublist hleft)).trans h.order
      · rw [hreceived, hsent, hlost, h.count, hlength, List.length_append, List.length_singleton]
        omega

/-- While nothing has been lost, everything is there. -/
theorem Ordered.eq_of_lost_nil {sink : κ} (h : Ordered line sink t) (hlost : t.lost = []) :
    t.received sink ++ content t.stage line = t.sent := by
  apply h.order.eq_of_length
  rw [h.count, hlost, List.length_append]
  rfl

end Traffic

end Pipeline
