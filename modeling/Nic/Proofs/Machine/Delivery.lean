/-
What subscribers receive.

An observer tells of each change twice: it is sent to whoever has subscribed, and it is kept until
the observer is asked. Both are followed here through any sequence of operations on an observer.

The view of a subscriber is its mailbox, that is, what it would receive, and for each operation
there is an equation that says what becomes of it (`receive_subscribe`, `receive_drop` and so on).
They give what one operation does to a subscriber who stays (`gives_append_mailbox`): what it
receives, followed by what is left for it, is what was left for it before, followed by what is
notified. By induction this is so for any sequence (`received_append_mailbox`).

Subscribers are forgotten late, by the next notification after they lost interest. Until then they
are counted, but a notification leaves none of them, so right after it those who are counted are
those who listen (`subscriberCount_notify`).
-/
import Mathlib.Data.List.DropRight
import Nic.Proofs.Machine.Noticed
import Nic.Proofs.Machine.Notifications

set_option autoImplicit false

namespace Nic

/-! ## The order of parts -/

namespace Change

/-- The kinds of parts, in their order. -/
def kind : Change → Nat
  | reg _ => 0
  | pc => 1
  | ir => 2
  | nr => 3
  | sr => 4
  | mem _ => 5
  | running => 6

/-- The number of a part among those of its kind. -/
def index : Change → Nat
  | reg r => r.number.toNat
  | mem a => a.toNat
  | _ => 0

/-- Parts come by their kinds, registers by their numbers and cells by their addresses. -/
def Precedes (c d : Change) : Prop :=
  c.kind < d.kind ∨ c.kind = d.kind ∧ c.index < d.index

theorem precedes_of_compare {c d : Change} (h : compare c d = .lt) : Precedes c d := by
  rw [compare_eq, Nat.compare_eq_lt] at h
  have hreg : ∀ r : Reg, r.number.toNat < 16 := fun r => r.number.isLt
  have hmem : ∀ a : Byte, a.toNat < 256 := fun a => a.isLt
  cases c <;> cases d <;> simp only [rank, Precedes, kind, index] at h ⊢ <;> grind

end Change

namespace Observer

/-! ## Operations -/

/-- The first changes that a subscriber has not received yet, at most so many, which it then has;
none if it has lost interest or does not exist. -/
def receiveUpTo (o : Observer) (number limit : Nat) : Option (List Change) × Observer :=
  match o.subscribers[number]? with
  | some (.active mailbox) =>
    (some (mailbox.toList.take limit),
      { o with
        subscribers :=
          o.subscribers.setIfInBounds number (.active (mailbox.toList.drop limit).toArray) })
  | _ => (none, o)

/-- What can be done with an observer and its subscribers. These are called by their numbers, and
receive all changes that there are or only some. -/
inductive Operation where
  | notify (c : Change)
  | subscribe
  | receive (k : Nat)
  | receiveUpTo (k limit : Nat)
  | drop (k : Nat)
  | clear
  | takeChanges
deriving DecidableEq

/-- The observer after an operation. -/
def after (o : Observer) : Operation → Observer
  | .notify c => o.notify c
  | .subscribe => o.subscribe.2
  | .receive k => (o.receive k).2
  | .receiveUpTo k limit => (o.receiveUpTo k limit).2
  | .drop k => o.drop k
  | .clear => o.clear
  | .takeChanges => o.takeChanges.2

/-- The observer after operations, one after the other. -/
def afterAll (o : Observer) (ops : List Operation) : Observer := ops.foldl after o

namespace Operation

/-- The change that an operation notifies. -/
def notified : Operation → List Change
  | notify c => [c]
  | _ => []

/-- Whether the observer forgets the changes that it keeps. -/
def clears : Operation → Bool
  | clear => true
  | takeChanges => true
  | _ => false

/-- What subscriber `k` receives by an operation. -/
def gives (o : Observer) (k : Nat) : Operation → List Change
  | receive j => if j = k then (o.receive k).1.getD [] else []
  | receiveUpTo j limit => if j = k then (o.receiveUpTo k limit).1.getD [] else []
  | _ => []

end Operation

/-- The changes that operations notify, in order. -/
def notified (ops : List Operation) : List Change := ops.flatMap Operation.notified

/-- What subscriber `k` receives by operations, in order. -/
def received (k : Nat) : Observer → List Operation → List Change
  | _, [] => []
  | o, op :: ops => op.gives o k ++ received k (o.after op) ops

/-- The operations since the observer last forgot its changes. -/
def sinceCleared (ops : List Operation) : List Operation := ops.rtakeWhile (!·.clears)

/-- Subscriber `k` of a new observer subscribed right before `later`, and has not lost interest
since. -/
def ListensSince (ops : List Operation) (k : Nat) (later : List Operation) : Prop :=
  ∃ earlier, ops = earlier ++ .subscribe :: later ∧ (new.afterAll earlier).subscribe.1 = k ∧
    .drop k ∉ later

theorem afterAll_append (o : Observer) (xs ys : List Operation) :
    o.afterAll (xs ++ ys) = (o.afterAll xs).afterAll ys := by
  unfold afterAll
  rw [List.foldl_append]

theorem afterAll_concat (o : Observer) (xs : List Operation) (op : Operation) :
    o.afterAll (xs ++ [op]) = (o.afterAll xs).after op := afterAll_append o xs [op]

/-! ## Mailboxes -/

theorem receive_of_active {o : Observer} {k : Nat} {mailbox : Array Change}
    (h : o.subscribers[k]? = some (.active mailbox)) : (o.receive k).1 = some mailbox.toList := by
  simp only [receive, h]

theorem receive_of_not_active {o : Observer} {k : Nat}
    (h : ∀ mailbox, o.subscribers[k]? ≠ some (.active mailbox)) : o.receive k = (none, o) := by
  unfold receive
  split
  · exact absurd ‹_› (h _)
  · rfl

theorem receiveUpTo_of_not_active {o : Observer} {k : Nat}
    (h : ∀ mailbox, o.subscribers[k]? ≠ some (.active mailbox)) (limit : Nat) :
    o.receiveUpTo k limit = (none, o) := by
  unfold receiveUpTo
  split
  · exact absurd ‹_› (h _)
  · rfl

/-- A mailbox depends on its subscriber only. -/
theorem receive_congr {o o' : Observer} {k : Nat} (h : o'.subscribers[k]? = o.subscribers[k]?) :
    (o'.receive k).1 = (o.receive k).1 := by
  unfold receive
  rw [h]
  split <;> rfl

theorem receive_subscribe (o : Observer) (k : Nat) :
    (o.subscribe.2.receive k).1 = if o.subscribe.1 = k then some [] else (o.receive k).1 := by
  by_cases hk : o.subscribe.1 = k
  · rw [if_pos hk]
    apply receive_of_active
    simp only [subscribe] at hk ⊢
    rw [Array.getElem?_push, if_pos hk.symm]
  · rw [if_neg hk]
    apply receive_congr
    simp only [subscribe] at hk ⊢
    rw [Array.getElem?_push, if_neg (Ne.symm hk)]

theorem receive_drop (o : Observer) (j k : Nat) :
    ((o.drop j).receive k).1 = if j = k then none else (o.receive k).1 := by
  by_cases hk : j = k
  · rw [if_pos hk, receive_of_not_active]
    intro mailbox
    unfold drop
    rw [Array.getElem?_modify, if_pos hk]
    cases hs : o.subscribers[k]? with
    | none => simp
    | some s => cases s <;> simp [Subscriber.drop]
  · rw [if_neg hk]
    apply receive_congr
    unfold drop
    rw [Array.getElem?_modify, if_neg hk]

/-- Some changes are taken from the front of one mailbox, and the others stay in it. -/
theorem receiveUpTo_spec (o : Observer) (j limit k : Nat) :
    (o.receiveUpTo j limit).1 = (o.receive j).1.map (List.take limit) ∧
      ((o.receiveUpTo j limit).2.receive k).1 =
        if j = k then (o.receive k).1.map (List.drop limit) else (o.receive k).1 := by
  by_cases hactive : ∃ mailbox, o.subscribers[j]? = some (.active mailbox)
  · obtain ⟨mailbox, hj⟩ := hactive
    have hlt : j < o.subscribers.size := (Array.getElem?_eq_some_iff.mp hj).1
    rw [receive_of_active hj]
    simp only [receiveUpTo, hj, Option.map_some, true_and]
    by_cases hk : j = k
    · rw [if_pos hk, ← hk, receive_of_active hj]
      apply receive_of_active
      rw [Array.getElem?_setIfInBounds, if_pos rfl, if_pos hlt]
    · rw [if_neg hk]
      apply receive_congr
      rw [Array.getElem?_setIfInBounds, if_neg hk]
  · have hnot := not_exists.mp hactive
    rw [receiveUpTo_of_not_active hnot, receive_of_not_active hnot]
    refine ⟨rfl, ?_⟩
    by_cases hk : j = k
    · rw [if_pos hk, ← hk, receive_of_not_active hnot]
      rfl
    · rw [if_neg hk]

/-- All changes are as many as the mailbox has. -/
theorem receive_eq_receiveUpTo (o : Observer) (k : Nat) :
    o.receive k = o.receiveUpTo k ((o.receive k).1.getD []).length := by
  by_cases hactive : ∃ mailbox, o.subscribers[k]? = some (.active mailbox)
  · obtain ⟨mailbox, hk⟩ := hactive
    rw [receive_of_active hk]
    simp only [receive, receiveUpTo, hk, Option.getD_some, List.take_length, List.drop_length]
  · rw [receive_of_not_active (not_exists.mp hactive),
      receiveUpTo_of_not_active (not_exists.mp hactive)]

theorem receive_receive (o : Observer) (j k : Nat) :
    ((o.receive j).2.receive k).1 =
      if j = k then (o.receive k).1.map fun _ => [] else (o.receive k).1 := by
  rw [receive_eq_receiveUpTo o j, (receiveUpTo_spec o j _ k).2]
  by_cases hk : j = k
  · rw [if_pos hk, if_pos hk, hk]
    cases (o.receive k).1 <;> simp
  · rw [if_neg hk, if_neg hk]

/-- A new subscriber has a number that no one has. -/
theorem receive_subscribe_number (o : Observer) : (o.receive o.subscribe.1).1 = none := by
  rw [receive_of_not_active]
  intro mailbox
  simp [subscribe]

/-! ## One operation -/

/-- Who listens after an operation: who has just subscribed, and who listened and did not lose
interest. -/
theorem isSome_receive_after (o : Observer) (op : Operation) (k : Nat) :
    ((o.after op).receive k).1.isSome ↔
      op = .subscribe ∧ o.subscribe.1 = k ∨ (o.receive k).1.isSome ∧ op ≠ .drop k := by
  cases op with
  | notify c => simp [after, receive_notify]
  | subscribe =>
    rw [after, receive_subscribe]
    by_cases hk : o.subscribe.1 = k <;> simp [hk]
  | receive j =>
    rw [after, receive_receive]
    by_cases hk : j = k <;> simp [hk]
  | receiveUpTo j limit =>
    rw [after, (receiveUpTo_spec o j limit k).2]
    by_cases hk : j = k <;> simp [hk]
  | drop j =>
    rw [after, receive_drop]
    by_cases hk : j = k <;> simp [hk]
  | clear => simp [after, receive_clear]
  | takeChanges => simp [after, takeChanges, receive_clear]

/-- **What is received and what is left are what was left and what is notified.** -/
theorem gives_append_mailbox {o : Observer} {k : Nat} {mailbox : List Change}
    (h : (o.receive k).1 = some mailbox) {op : Operation} (hdrop : op ≠ .drop k) :
    ∃ left, ((o.after op).receive k).1 = some left ∧
      op.gives o k ++ left = mailbox ++ op.notified := by
  cases op with
  | notify c =>
    refine ⟨mailbox ++ [c], ?_, rfl⟩
    rw [after, receive_notify, h]
    rfl
  | subscribe =>
    have hne : o.subscribe.1 ≠ k := by
      rintro rfl
      rw [receive_subscribe_number] at h
      simp at h
    refine ⟨mailbox, ?_, by simp [Operation.gives, Operation.notified]⟩
    rw [after, receive_subscribe, if_neg hne, h]
  | receive j =>
    by_cases hk : j = k
    · refine ⟨[], ?_, by simp [Operation.gives, Operation.notified, hk, h]⟩
      rw [after, receive_receive, if_pos hk, h]
      rfl
    · refine ⟨mailbox, ?_, by simp [Operation.gives, Operation.notified, hk]⟩
      rw [after, receive_receive, if_neg hk, h]
  | receiveUpTo j limit =>
    obtain ⟨hgiven, hleft⟩ := receiveUpTo_spec o j limit k
    by_cases hk : j = k
    · subst hk
      refine ⟨mailbox.drop limit, ?_, ?_⟩
      · rw [after, hleft, if_pos rfl, h]
        rfl
      · simp [Operation.gives, Operation.notified, hgiven, h]
    · refine ⟨mailbox, ?_, by simp [Operation.gives, Operation.notified, hk]⟩
      rw [after, hleft, if_neg hk, h]
  | drop j =>
    have hne : j ≠ k := fun hk => hdrop (congrArg Operation.drop hk)
    refine ⟨mailbox, ?_, by simp [Operation.gives, Operation.notified]⟩
    rw [after, receive_drop, if_neg hne, h]
  | clear =>
    refine ⟨mailbox, ?_, by simp [Operation.gives, Operation.notified]⟩
    rw [after, receive_clear, h]
  | takeChanges =>
    refine ⟨mailbox, ?_, by simp [Operation.gives, Operation.notified]⟩
    rw [after, takeChanges, receive_clear, h]

/-- Who has not subscribed yet receives nothing. -/
theorem gives_of_size_le {o : Observer} {k : Nat} (h : o.subscribers.size ≤ k) (op : Operation) :
    op.gives o k = [] := by
  have hnone : (o.receive k).1 = none := by
    rw [receive_of_not_active]
    intro mailbox
    simp [Array.getElem?_eq_none h]
  cases op with
  | receive j => simp [Operation.gives, hnone]
  | receiveUpTo j limit => simp [Operation.gives, (receiveUpTo_spec o k limit k).1, hnone]
  | _ => rfl

theorem size_le_after (o : Observer) (op : Operation) :
    o.subscribers.size ≤ (o.after op).subscribers.size := by
  cases op with
  | notify c => simp [after, Observer.notify]
  | subscribe => simp [after, Observer.subscribe]
  | receive j =>
    simp only [after, Observer.receive]
    split <;> simp
  | receiveUpTo j limit =>
    simp only [after, Observer.receiveUpTo]
    split <;> simp
  | drop j => simp [after, Observer.drop]
  | clear => exact Nat.le_refl _
  | takeChanges => exact Nat.le_refl _

/-! ## Any sequence of operations -/

theorem received_append (k : Nat) (o : Observer) (xs ys : List Operation) :
    received k o (xs ++ ys) = received k o xs ++ received k (o.afterAll xs) ys := by
  induction xs generalizing o with
  | nil => rfl
  | cons op xs ih => simp [received, ih, afterAll]

/-- Nothing was received by who subscribes only now. -/
theorem received_of_size_le {o : Observer} {k : Nat} {ops : List Operation}
    (h : (o.afterAll ops).subscribers.size ≤ k) : received k o ops = [] := by
  induction ops using List.reverseRecOn with
  | nil => rfl
  | append_singleton ops op ih =>
    rw [afterAll_concat] at h
    have hle := size_le_after (o.afterAll ops) op
    rw [received_append, ih (by omega)]
    simp [received, gives_of_size_le (Nat.le_trans hle h)]

/-- **All that is notified reaches who listens**, in order, received already or still to be
received. -/
theorem received_append_mailbox {o : Observer} {k : Nat} {mailbox : List Change}
    (h : (o.receive k).1 = some mailbox) {ops : List Operation} (hdrop : .drop k ∉ ops) :
    ∃ left, ((o.afterAll ops).receive k).1 = some left ∧
      received k o ops ++ left = mailbox ++ notified ops := by
  induction ops generalizing o mailbox with
  | nil => exact ⟨mailbox, h, by simp [received, notified]⟩
  | cons op ops ih =>
    rw [List.mem_cons, not_or] at hdrop
    obtain ⟨next, hnext, hstep⟩ := gives_append_mailbox h (Ne.symm hdrop.1)
    obtain ⟨left, hleft, hrest⟩ := ih hnext hdrop.2
    refine ⟨left, hleft, ?_⟩
    calc received k o (op :: ops) ++ left
        = op.gives o k ++ (received k (o.after op) ops ++ left) := by simp [received]
      _ = (op.gives o k ++ next) ++ notified ops := by rw [hrest, List.append_assoc]
      _ = mailbox ++ notified (op :: ops) := by simp [hstep, notified]

/-! ## Who listens -/

theorem listensSince_concat {ops : List Operation} {op : Operation} {k : Nat} :
    (∃ later, ListensSince (ops ++ [op]) k later) ↔
      op = .subscribe ∧ (new.afterAll ops).subscribe.1 = k ∨
        (∃ later, ListensSince ops k later) ∧ op ≠ .drop k := by
  constructor
  · rintro ⟨later, earlier, hops, hk, hdrop⟩
    -- the operation at the end is the subscription, or comes after it
    rcases List.eq_nil_or_concat' later with rfl | ⟨init, last, rfl⟩
    · obtain ⟨rfl, hop⟩ := List.append_inj' hops rfl
      exact .inl ⟨by simpa using hop, hk⟩
    · rw [← List.cons_append, ← List.append_assoc] at hops
      obtain ⟨rfl, hop⟩ := List.append_inj' hops rfl
      obtain rfl : op = last := by simpa using hop
      simp only [List.mem_append, List.mem_singleton, not_or] at hdrop
      exact .inr ⟨⟨init, earlier, rfl, hk, hdrop.1⟩, Ne.symm hdrop.2⟩
  · rintro (⟨rfl, hk⟩ | ⟨⟨later, earlier, rfl, hk, hdrop⟩, hop⟩)
    · exact ⟨[], ops, rfl, hk, List.not_mem_nil⟩
    · refine ⟨later ++ [op], earlier, by simp, hk, ?_⟩
      simp [hdrop, Ne.symm hop]

/-- **Who has a mailbox is who subscribed and did not lose interest.** -/
theorem isSome_receive_iff (ops : List Operation) (k : Nat) :
    ((new.afterAll ops).receive k).1.isSome ↔ ∃ later, ListensSince ops k later := by
  induction ops using List.reverseRecOn with
  | nil =>
    constructor
    · intro h
      simp [afterAll, new, receive] at h
    · rintro ⟨later, earlier, hops, -⟩
      simp at hops
  | append_singleton ops op ih =>
    rw [afterAll_concat, isSome_receive_after, listensSince_concat, ih]

/-! ## Who is counted -/

/-- Places with a property, counted by their numbers. -/
theorem length_filter_range {α : Type} (p : α → Bool) (xs : List α) :
    ((List.range xs.length).filter fun i => xs[i]?.any p).length = xs.countP p := by
  induction xs using List.reverseRecOn with
  | nil => rfl
  | append_singleton xs x ih =>
    have hinit : (List.range xs.length).filter (fun i => (xs ++ [x])[i]?.any p) =
        (List.range xs.length).filter fun i => xs[i]?.any p := by
      apply List.filter_congr
      intro i hi
      rw [List.getElem?_append_left (List.mem_range.mp hi)]
    rw [List.length_append, List.length_singleton, List.range_succ, List.filter_append, hinit,
      List.length_append, ih, List.countP_append]
    by_cases hx : p x <;> simp [hx]

/-- **Right after a notification, those who are counted are those who listen.** -/
theorem subscriberCount_notify (o : Observer) (c : Change) :
    ∃ listeners : List Nat, listeners.Nodup ∧
      (∀ k, k ∈ listeners ↔ ((o.notify c).receive k).1.isSome) ∧
      (o.notify c).subscriberCount = listeners.length := by
  let subscribers := (o.notify c).subscribers.toList
  refine ⟨(List.range subscribers.length).filter fun i => subscribers[i]?.any (·.isCounted),
    List.nodup_range.filter _, ?_, ?_⟩
  · intro k
    have hk : subscribers[k]? = o.subscribers[k]?.map (·.send c) := by
      simp [subscribers, notify]
    have hlt : k < subscribers.length ↔ subscribers[k]?.isSome := by simp
    rw [List.mem_filter, List.mem_range, hlt, receive_notify, hk]
    cases hs : o.subscribers[k]? with
    | none => simp [receive, hs]
    | some s => cases s <;> simp [receive, hs, Subscriber.send, Subscriber.isCounted]
  · rw [length_filter_range, subscriberCount, Array.countP_toList]

/-! ## What the observer keeps -/

theorem pending_after (o : Observer) (op : Operation) (c : Change) :
    c ∈ (o.after op).pending ↔ c ∈ op.notified ∨ op.clears = false ∧ c ∈ o.pending := by
  cases op with
  | notify d => simp [after, mem_notify, Operation.notified, Operation.clears, eq_comm]
  | receive j =>
    simp only [after, Observer.receive]
    split <;> simp [Operation.notified, Operation.clears]
  | receiveUpTo j limit =>
    simp only [after, Observer.receiveUpTo]
    split <;> simp [Operation.notified, Operation.clears]
  | clear => simp [after, Observer.clear, Operation.notified, Operation.clears]
  | takeChanges =>
    simp [after, Observer.takeChanges, Observer.clear, Operation.notified, Operation.clears]
  | _ => simp [after, Observer.subscribe, Observer.drop, Operation.notified, Operation.clears]

/-- **The observer keeps what was notified since it last forgot its changes.** -/
theorem mem_pending_afterAll (ops : List Operation) (c : Change) :
    c ∈ (new.afterAll ops).pending ↔ c ∈ notified (sinceCleared ops) := by
  induction ops using List.reverseRecOn with
  | nil => simp [afterAll, new, sinceCleared, notified]
  | append_singleton ops op ih =>
    rw [afterAll_concat, pending_after, ih]
    unfold sinceCleared
    rw [List.rtakeWhile_concat]
    by_cases hclears : op.clears = true
    · have hnone : op.notified = [] := by
        cases op <;> simp_all [Operation.clears, Operation.notified]
      simp [hclears, hnone, notified]
    · simp [hclears, notified, or_comm]

theorem takeChanges_sorted (o : Observer) : o.takeChanges.1.Pairwise Change.Precedes :=
  Std.ExtTreeSet.ordered_toList.imp Change.precedes_of_compare

/-! ## Delivery -/

/-- **Delivery.** Take any sequence of operations on a new observer.

* What a subscriber who has not lost interest received in all of them, followed by what it would
  receive now, is what was notified since it subscribed, in order and as often. What else was done,
  by other subscribers or to the changes that the observer keeps, makes no difference.
* The observer, asked for its changes, gives those that were notified since they were last cleared
  or taken, each once, in the order of the parts.
* If one more change is notified, the observer then counts exactly the subscribers who have not
  lost interest. -/
theorem delivery (ops : List Operation) :
    (∀ k later, ListensSince ops k later → ∃ pending,
      ((new.afterAll ops).receive k).1 = some pending ∧
        received k new ops ++ pending = notified later) ∧
    ((new.afterAll ops).takeChanges.1.Pairwise Change.Precedes ∧
      ∀ c, c ∈ (new.afterAll ops).takeChanges.1 ↔ c ∈ notified (sinceCleared ops)) ∧
    ∀ c, ∃ listeners : List Nat, listeners.Nodup ∧
      (∀ k, k ∈ listeners ↔ ∃ later, ListensSince (ops ++ [.notify c]) k later) ∧
      (new.afterAll (ops ++ [.notify c])).subscriberCount = listeners.length := by
  refine ⟨?_, ⟨takeChanges_sorted _, ?_⟩, ?_⟩
  · rintro k later ⟨earlier, rfl, hk, hdrop⟩
    -- with the subscription the mailbox is there and empty, and nothing was received before
    have hmailbox : ((new.afterAll (earlier ++ [.subscribe])).receive k).1 = some [] := by
      rw [afterAll_concat, after, receive_subscribe, if_pos hk]
    have hbefore : received k new earlier = [] := received_of_size_le (Nat.le_of_eq hk)
    obtain ⟨pending, hpending, hall⟩ := received_append_mailbox hmailbox hdrop
    rw [← afterAll_append, List.append_assoc, List.singleton_append] at hpending
    refine ⟨pending, hpending, ?_⟩
    rw [afterAll_concat, List.nil_append] at hall
    rw [received_append, hbefore, List.nil_append]
    exact hall
  · intro c
    rw [← mem_pending_afterAll]
    exact Std.ExtTreeSet.mem_toList
  · intro c
    obtain ⟨listeners, hnodup, hmem, hcount⟩ := subscriberCount_notify (new.afterAll ops) c
    have hafter : new.afterAll (ops ++ [.notify c]) = (new.afterAll ops).notify c :=
      afterAll_concat _ _ _
    refine ⟨listeners, hnodup, ?_, ?_⟩
    · intro k
      rw [hmem, ← isSome_receive_iff, hafter]
    · rw [hafter, hcount]

/-- The second of two subscribers comes and goes, the changes are cleared, and the first one
receives one change of four. -/
theorem delivery_dropped_neighbour :
    let ops : List Operation := [.subscribe, .notify .pc, .subscribe, .notify (.mem 3),
      .receiveUpTo 0 1, .drop 1, .clear, .notify .pc, .notify .pc]
    ListensSince ops 0 ops.tail ∧ received 0 new ops = [.pc] ∧
      ∃ pending, ((new.afterAll ops).receive 0).1 = some pending ∧
        .pc :: pending = [.pc, .mem 3, .pc, .pc] := by
  intro ops
  have hlistens : ListensSince ops 0 ops.tail := ⟨[], rfl, rfl, by decide⟩
  have hreceived : received 0 new ops = [.pc] := by decide +kernel
  obtain ⟨pending, hpending, hall⟩ := (delivery ops).1 0 ops.tail hlistens
  rw [hreceived] at hall
  exact ⟨hlistens, hreceived, pending, hpending, hall⟩

end Observer

end Nic
