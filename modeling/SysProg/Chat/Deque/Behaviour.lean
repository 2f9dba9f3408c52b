import SysProg.Chat.Deque.Representation

namespace SysProg.Chat

variable {δ : Type} {stale kept : Ptr → Prop} {store : Store δ} {cells : List (Cell δ)} {shape : Shape}

/-! # When the list behaves as a deque -/

def Cell.mirror (cell : Cell δ) : Cell δ := { cell with origin := cell.origin.mirror }

def mirrorCells (cells : List (Cell δ)) : List (Cell δ) := (cells.map Cell.mirror).reverse

theorem mirrorCells_value (cells : List (Cell δ)) :
    (mirrorCells cells).map Cell.value = (cells.map Cell.value).reverse := by
  simp [mirrorCells, Cell.mirror, Function.comp_def]

theorem mirrorCells_address (cells : List (Cell δ)) :
    (mirrorCells cells).map Cell.address = (cells.map Cell.address).reverse := by
  simp [mirrorCells, Cell.mirror, Function.comp_def]

theorem frontRun_mirrorCells (cells : List (Cell δ)) : frontRun (mirrorCells cells) = backRun cells := by
  have swap : ((fun cell : Cell δ => cell.origin != .back) ∘ Cell.mirror) = fun cell => cell.origin != .front := by
    funext cell
    rcases cell with ⟨address, origin, value⟩
    cases origin <;> rfl
  simp only [frontRun, backRun, mirrorCells, ← List.map_reverse, List.takeWhile_map, swap, List.map_map]
  rfl

theorem backRun_mirrorCells (cells : List (Cell δ)) : backRun (mirrorCells cells) = frontRun cells := by
  have swap : ((fun cell : Cell δ => cell.origin != .front) ∘ Cell.mirror) = fun cell => cell.origin != .back := by
    funext cell
    rcases cell with ⟨address, origin, value⟩
    cases origin <;> rfl
  simp only [frontRun, backRun, mirrorCells, List.reverse_reverse, List.takeWhile_map, swap, List.map_map]
  rfl

theorem segment_mirror {link other : LNode δ → Ptr} (exchanged : ∀ node, link node.mirror = other node)
    {ptr final : Ptr} {visited : List Nat} (segment : Segment other store.heap ptr visited final) :
    Segment link store.mirror.heap ptr visited final := by
  induction visited generalizing ptr with
  | nil => exact segment
  | cons address rest ih =>
      obtain ⟨start, node, lookup, tail⟩ := segment
      refine ⟨start, node.mirror, by simp [Store.mirror, lookup], ?_⟩
      rw [exchanged]
      exact ih tail

theorem Origin.before_mirror {left right : Origin} (before : left.Before right) :
    right.mirror.Before left.mirror := by
  cases left <;> cases right <;> simp_all [Origin.Before, Origin.mirror]

theorem Represents.mirror (rep : Represents stale store cells shape) :
    Represents stale store.mirror (mirrorCells cells) shape.mirror := by
  obtain ⟨last, forward, forwardEnds⟩ := rep.forward
  obtain ⟨first, backward, backwardEnds⟩ := rep.backward
  refine {
    origins := by simp [Shape.mirror, rep.origins, mirrorCells, Cell.mirror, Function.comp_def]
    ordered := ?_
    distinct := by rw [mirrorCells_address, List.nodup_reverse]; exact rep.distinct
    stored := ?_
    forward := ⟨first, ?_, backwardEnds⟩
    backward := ⟨last, ?_, forwardEnds⟩
    size := by simp [mirrorCells, rep.size] }
  · simp only [Shape.mirror, List.pairwise_reverse, List.pairwise_map]
    exact rep.ordered.imp Origin.before_mirror
  · intro cell member
    obtain ⟨original, inside, rfl⟩ := List.mem_map.mp (List.mem_reverse.mp member)
    obtain ⟨node, lookup, holds⟩ := rep.stored original inside
    exact ⟨node.mirror, by simp [Store.mirror, Cell.mirror, lookup], holds⟩
  · rw [frontRun_mirrorCells]
    exact segment_mirror (fun _ => rfl) backward
  · rw [backRun_mirrorCells]
    exact segment_mirror (fun _ => rfl) forward

/-- The call answers as the deque does, and the list still represents it. A
link that comes to end at a removed node ends at one that is no longer there. -/
def Follows (stale : Ptr → Prop) (store : Store δ) (cells : List (Cell δ)) (shape : Shape)
    (call : Call δ) (node : Nat) : Prop :=
  ∃ after rest, perform store (call, node) = .ok (call.answer (cells.map Cell.value), after) ∧
    rest.map Cell.value = call.effect (cells.map Cell.value) ∧
    ∀ kept : Ptr → Prop, (∀ ptr, stale ptr → kept ptr) →
      (∀ cell ∈ cells, after.heap cell.address = none → kept (some cell.address)) →
      Represents kept after rest (shape.after call)

theorem perform_of_mirror {call : Call δ} {node : Nat} {answer : Option δ} {after : Store δ}
    (performed : perform store.mirror (call.mirror, node) = .ok (answer, after)) :
    perform store (call, node) = .ok (answer, after.mirror) := by
  rw [perform_mirror] at performed
  rw [← mirrorResult_mirrorResult (perform store (call, node)), performed, mirrorResult_ok]

theorem Follows.of_mirror {call : Call δ} {node : Nat}
    (follows : Follows stale store.mirror (mirrorCells cells) shape.mirror call.mirror node) :
    Follows stale store cells shape call node := by
  obtain ⟨after, rest, performed, values, represented⟩ := follows
  rw [mirrorCells_value, Call.mirror_answer] at performed
  rw [mirrorCells_value, Call.mirror_effect] at values
  refine ⟨after.mirror, mirrorCells rest, perform_of_mirror performed, ?_, ?_⟩
  · rw [mirrorCells_value, values, List.reverse_reverse]
  · intro kept keeps freed
    have reversed := represented kept keeps (by
      intro cell member gone
      obtain ⟨original, inside, rfl⟩ := List.mem_map.mp (List.mem_reverse.mp member)
      exact freed original inside (by simpa [Cell.mirror] using gone))
    simpa [Shape.mirror_after] using reversed.mirror

theorem Represents.follows_addf {node : Nat} {data : δ} (rep : Represents stale store cells shape)
    (admitted : shape.admits (.addf data) = true) (unused : store.heap node = none) :
    Follows stale store cells shape (.addf data) node := by
  obtain ⟨after, performed, represented⟩ := rep.addf (by simpa [Shape.admits] using admitted) unused data
  refine ⟨after, _, ?_, rfl, fun kept keeps _ => represented kept keeps⟩
  rw [perform, performed]
  rfl

theorem Represents.follows_remf {node : Nat} (rep : Represents stale store cells shape)
    (admitted : shape.admits (.remf : Call δ) = true) : Follows stale store cells shape .remf node := by
  cases cells with
  | nil =>
      have empty : shape.origins = [] := by simpa using rep.origins
      have clear : shape.staleHead = false := by simpa [Shape.admits, empty] using admitted
      refine ⟨store, [], rep.remf_empty clear, rfl, ?_⟩
      intro kept keeps _
      obtain ⟨last, forward, forwardEnds⟩ := rep.forward
      obtain ⟨first, backward, backwardEnds⟩ := rep.backward
      have unchanged : shape.after (.remf : Call δ) = shape := by
        obtain ⟨origins, head, tail⟩ := shape
        simp_all [Shape.after]
      rw [unchanged]
      exact { rep with
        forward := ⟨last, forward, forwardEnds.mono keeps⟩
        backward := ⟨first, backward, backwardEnds.mono keeps⟩ }
  | cons cell rest =>
      have linked : cell.origin ≠ .back := by simpa [Shape.admits, rep.origins] using admitted
      obtain ⟨after, performed, heap, represented⟩ := rep.remf linked
      exact ⟨after, rest, performed, rfl, fun kept keeps freed =>
        represented kept keeps (freed cell (by simp) (by simp [heap]))⟩

/-- Every admitted call follows the deque. -/
theorem Represents.follows (rep : Represents stale store cells shape) (call : Call δ) (node : Nat)
    (admitted : shape.admits call = true) (unused : call.allocates = true → store.heap node = none) :
    Follows stale store cells shape call node := by
  cases call with
  | addf data => exact rep.follows_addf admitted (unused rfl)
  | remf => exact rep.follows_remf admitted
  | addl data =>
      have other := Shape.mirror_admits shape (.addl data : Call δ)
      exact (rep.mirror.follows_addf (other.trans admitted) (by simpa using unused rfl)).of_mirror
  | reml =>
      have other := Shape.mirror_admits shape (.reml : Call δ)
      exact (rep.mirror.follows_remf (other.trans admitted)).of_mirror

theorem Represents.missed {call : Call δ} {node : Nat} (rep : Represents stale store cells shape)
    (dangling : ∀ ptr, stale ptr → ∃ address, ptr = some address ∧ store.heap address = none)
    (missed : shape.admits call = false) :
    ∀ after, perform store (call, node) ≠ .ok (call.answer (cells.map Cell.value), after) := by
  cases call with
  | addf data =>
      intro after performed
      rw [perform, rep.addf_missed missed] at performed
      cases performed
  | remf => exact rep.remf_missed dangling missed
  | addl data =>
      intro after performed
      have other := Shape.mirror_admits shape (.addl data : Call δ)
      have mirrored := perform_mirror store (.addl data : Call δ) node
      rw [performed, Call.mirror, perform, rep.mirror.addf_missed (other.trans missed)] at mirrored
      cases mirrored
  | reml =>
      intro after performed
      have other := Shape.mirror_admits shape (.reml : Call δ)
      refine rep.mirror.remf_missed ?_ (other.trans missed) after.mirror ?_
      · intro ptr isStale
        obtain ⟨address, same, gone⟩ := dangling ptr isStale
        exact ⟨address, same, by simpa using gone⟩
      · have mirrored := perform_mirror store (.reml : Call δ) node
        rw [performed] at mirrored
        simpa [mirrorCells_value, Call.answer, perform, Call.mirror] using mirrored

/-- The list follows the deque through a whole sequence of admitted calls,
whatever unused addresses `malloc` returns. -/
theorem observe_of_linked {calls : List (Call δ)} {nodes : List Nat}
    (rep : Represents (fun _ => True) store cells shape) (linked : shape.linked calls = true)
    (length : nodes.length = calls.length) (served : Served store (calls.zip nodes)) :
    observe store (calls.zip nodes) = .ok (dequeObserve (cells.map Cell.value) calls) := by
  induction calls generalizing nodes store cells shape with
  | nil => rfl
  | cons call calls ih =>
      cases nodes with
      | nil => simp at length
      | cons node nodes =>
          simp only [Shape.linked, Bool.and_eq_true] at linked
          obtain ⟨unused, later⟩ := served
          obtain ⟨after, rest, performed, values, represented⟩ := rep.follows call node linked.1 unused
          have next := represented (fun _ => True) (fun _ _ => trivial) (fun _ _ _ => trivial)
          have continued := ih next linked.2 (by simpa using length) (later _ _ performed)
          have size : after.list.size = ((call.effect (cells.map Cell.value)).length : Int) := by
            rw [next.size, ← values, List.length_map]
          simp only [List.zip_cons_cons, observe, performed, ok_bind, continued, pure_eq_ok, size, values,
            dequeObserve]

/-! A `malloc` that never returns an address twice shows that no other sequence
of calls can be answered as the deque does. -/

def Below (bound : Nat) (store : Store δ) : Prop :=
  ∀ address, bound ≤ address → store.heap address = none

def Dangling (bound : Nat) (store : Store δ) (ptr : Ptr) : Prop :=
  ∃ address < bound, ptr = some address ∧ store.heap address = none

theorem llistAddf_heap {data : δ} {node : Nat} {code : Int} {after : Store δ}
    (performed : llistAddf store (some data) (some node) = .ok (code, after)) {address : Nat}
    (different : address ≠ node) : after.heap address = store.heap address := by
  obtain ⟨size, -, returned⟩ := bind_eq_ok.mp performed
  cases returned
  exact Heap.write_other _ _ different

theorem llistRemf_heap {answer : Option δ} {after : Store δ} (performed : llistRemf store = .ok (answer, after))
    {address : Nat} (absent : store.heap address = none) : after.heap address = none := by
  simp only [llistRemf] at performed
  split at performed
  · cases performed
    exact absent
  · rename_i head _
    split at performed
    · contradiction
    · obtain ⟨size, -, returned⟩ := bind_eq_ok.mp performed
      cases returned
      by_cases same : address = head
      · simp [same]
      · exact (Heap.free_other _ same).trans absent

theorem perform_heap {call : Call δ} {node : Nat} {answer : Option δ} {after : Store δ}
    (performed : perform store (call, node) = .ok (answer, after)) {address : Nat}
    (different : address ≠ node) (absent : store.heap address = none) : after.heap address = none := by
  cases call with
  | addf data =>
      obtain ⟨⟨code, final⟩, added, returned⟩ := bind_eq_ok.mp performed
      cases returned
      exact (llistAddf_heap added different).trans absent
  | addl data =>
      have mirrored := perform_mirror store (.addl data : Call δ) node
      rw [performed, mirrorResult_ok] at mirrored
      obtain ⟨⟨code, final⟩, added, returned⟩ := bind_eq_ok.mp mirrored
      cases returned
      exact Store.mirror_heap_eq_none.mp ((llistAddf_heap added different).trans (Store.mirror_heap_eq_none.mpr absent))
  | remf => exact llistRemf_heap performed absent
  | reml =>
      have mirrored := perform_mirror store (.reml : Call δ) node
      rw [performed, mirrorResult_ok] at mirrored
      exact Store.mirror_heap_eq_none.mp (llistRemf_heap mirrored (Store.mirror_heap_eq_none.mpr absent))

theorem Below.next {bound : Nat} {call : Call δ} {answer : Option δ} {after : Store δ}
    (below : Below bound store) (performed : perform store (call, bound) = .ok (answer, after)) :
    Below (bound + 1) after :=
  fun address le => perform_heap performed (by omega) (below address (by omega))

theorem served_of_below {bound : Nat} (calls : List (Call δ)) (below : Below bound store) :
    Served store (calls.zip (List.range' bound calls.length)) := by
  induction calls generalizing bound store with
  | nil => trivial
  | cons call calls ih =>
      simp only [List.length_cons, List.range'_succ, List.zip_cons_cons]
      exact ⟨fun _ => below bound (Nat.le_refl _), fun answer after performed => ih (below.next performed)⟩

theorem linked_of_observe {bound : Nat} {calls : List (Call δ)} (below : Below bound store)
    (rep : Represents (Dangling bound store) store cells shape)
    (observed : observe store (calls.zip (List.range' bound calls.length)) =
      .ok (dequeObserve (cells.map Cell.value) calls)) : shape.linked calls = true := by
  induction calls generalizing bound store cells shape with
  | nil => rfl
  | cons call calls ih =>
      simp only [List.length_cons, List.range'_succ, List.zip_cons_cons, observe, dequeObserve] at observed
      cases performed : perform store (call, bound) with
      | error reason =>
          rw [performed] at observed
          cases observed
      | ok result =>
          obtain ⟨answer, after⟩ := result
          rw [performed, ok_bind] at observed
          cases continued : observe after (calls.zip (List.range' (bound + 1) calls.length)) with
          | error reason =>
              rw [continued] at observed
              cases observed
          | ok observations =>
              simp only [continued, ok_bind, pure_eq_ok, Except.ok.injEq, List.cons.injEq,
                Prod.mk.injEq] at observed
              obtain ⟨⟨rfl, -⟩, rfl⟩ := observed
              have admitted : shape.admits call = true := by
                by_contra refused
                refine rep.missed ?_ (Bool.not_eq_true _ ▸ refused) after performed
                rintro ptr ⟨address, -, same, gone⟩
                exact ⟨address, same, gone⟩
              obtain ⟨next, rest, ran, values, represented⟩ := rep.follows call bound admitted
                (fun _ => below bound (Nat.le_refl _))
              rw [performed] at ran
              cases ran
              have nextRep := represented (Dangling (bound + 1) after) (by
                  rintro ptr ⟨address, less, same, gone⟩
                  exact ⟨address, by omega, same, perform_heap performed (by omega) gone⟩) (by
                  intro cell member gone
                  obtain ⟨node, lookup, -⟩ := rep.stored cell member
                  have used : cell.address < bound := by
                    by_contra unused
                    rw [below cell.address (by omega)] at lookup
                    contradiction
                  exact ⟨cell.address, by omega, rfl, gone⟩)
              rw [← values] at continued
              simp only [Shape.linked, admitted, Bool.true_and]
              exact ih (below.next performed) nextRep continued

/-- The list behaves as a deque on exactly the sequences of calls in which
every removal finds its end linked and no addition finds `INT_MAX` nodes. -/
theorem behavesAsDeque_iff_linked (calls : List (Call δ)) :
    BehavesAsDeque calls ↔ Shape.empty.linked calls = true := by
  constructor
  · intro behaves
    have below : Below 0 (llistInit : Store δ) := fun _ _ => rfl
    exact linked_of_observe below (represents_init _)
      (behaves (List.range' 0 calls.length) (by simp) (served_of_below calls below))
  · intro linked nodes length served
    exact observe_of_linked (represents_init _) linked length served

/-- Two values put in at the back: the second is lost to `llist_remf`. -/
theorem two_behind_not_deque : ¬ BehavesAsDeque [Call.addl 1, .addl 2, .remf, .remf] := by
  intro behaves
  have observed := behaves [0, 1, 2, 3] rfl (served_of_below _ (fun _ _ => rfl : Below 0 _))
  have actual : observe llistInit ([Call.addl 1, .addl 2, .remf, .remf].zip [0, 1, 2, 3]) =
      .ok [(none, 1), (none, 2), (some 1, 1), (none, 1)] := rfl
  rw [actual] at observed
  exact absurd observed (by decide)

end SysProg.Chat
