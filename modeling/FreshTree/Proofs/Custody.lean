import FreshTree.Proofs.Delivery
import FreshTree.Proofs.Loop

/-!
Which tree objects are where. Two parses may give equal trees, so an object is
known by the moment at which it was made. The custody of a run says which objects
the cache and the requests hold: a parse of a request and a delivery make a new
object, a look takes the cached one, and an offer passes on the one in hand. It
is kept beside the run and has no influence on it.
-/

namespace FreshTree

variable {U A : Type}

/-- A tree in memory, with the moment at which it was made. -/
structure TreeObject (U A : Type) where
  made : Nat
  tree : Tree U A

structure Custody (U A : Type) where
  cached : Option (TreeObject U A) := none
  /-- Every object that was written into the cache, in order. -/
  written : List (TreeObject U A) := []
  /-- What each request has in hand, to offer or to return. -/
  held : List (Option (TreeObject U A)) := []

def Stage.tree? : Stage U A → Option (Tree U A)
  | .installing tree _ => some tree
  | .answered tree => tree
  | .validating | .blocked _ | .parsing _ => none

def System.tree? (s : System U A) (i : Nat) : Option (Tree U A) :=
  s.requests[i]?.bind fun r => r.stage.tree?

variable [DecidableEq U]

def Delivery.made? (d : Delivery U A) (p : Provider U A) : Option (Tree U A) :=
  if (d.outcome p).reply = .installed then d.ast.map d.tree else none

def System.takes (s : System U A) (i : Nat) : Request.Move A → Bool
  | .install false =>
    match s.requests[i]?.map Request.stage with
    | some (.installing tree since) => (s.provider.installForeground? tree since).isSome
    | _ => false
  | _ => false

namespace Custody

def write (c : Custody U A) (object : TreeObject U A) : Custody U A :=
  { c with cached := some object, written := c.written ++ [object] }

/-- Nothing was written: the cache holds what it held, unless it was emptied. -/
def settle (c : Custody U A) (p : Provider U A) : Custody U A :=
  { c with cached := c.cached.filter fun _ => p.cached.isSome }

def inHand (c : Custody U A) (s : System U A) (i : Nat) (tree : Tree U A) :
    Request.Move A → Option (TreeObject U A)
  | .look _ => c.cached
  | .finish _ _ => some ⟨s.history.length, tree⟩
  | .wake | .call | .install _ => c.held[i]?.join

def moved (c : Custody U A) (s : System U A) (i : Nat) (move : Request.Move A)
    (after : System U A) : Custody U A :=
  let object := (after.tree? i).bind fun tree => c.inHand s i tree move
  let holding := { c with held := c.held.set i object }
  match s.takes i move, object with
  | true, some object => holding.write object
  | _, _ => holding

def follow (c : Custody U A) (s : System U A) (act : Act U A) (after : System U A) : Custody U A :=
  match act with
  | .ask _ _ => { c with held := c.held ++ [none] }
  | .request i move => c.moved s i move after
  | act =>
    match (s.delivery? act).bind fun d => d.made? s.provider with
    | some tree => c.write ⟨s.history.length, tree⟩
    | none => c.settle after.provider

theorem follow_other {c : Custody U A} {s after : System U A} {act : Act U A}
    (other : ∀ i move, act ≠ .request i move) (unasked : ∀ unit policy, act ≠ .ask unit policy) :
    c.follow s act after =
      match (s.delivery? act).bind fun d => d.made? s.provider with
      | some tree => c.write ⟨s.history.length, tree⟩
      | none => c.settle after.provider := by
  cases act with
  | ask unit policy => exact absurd rfl (unasked unit policy)
  | request i move => exact absurd rfl (other i move)
  | _ => rfl

def along (limits : Limits) (s : System U A) (c : Custody U A) : List (Act U A) → Custody U A
  | [] => c
  | act :: rest =>
    match s.step? limits act with
    | none => c
    | some next => along limits next (c.follow s act next) rest

def ofRun (limits : Limits) (acts : List (Act U A)) : Custody U A := along limits {} {} acts

end Custody

theorem Provider.receive_slot (p : Provider U A) (id : TreeId) (ast : Option A) (unit : U)
    (generation : Generation) :
    ((p.receive id ast unit generation).2 = .installed ∧ ∃ content, ast = some content ∧
        (p.receive id ast unit generation).1.cached =
          some ⟨id, unit, .reconciled generation, content⟩) ∨
      (p.receive id ast unit generation).2 ≠ .installed ∧
        (p.receive id ast unit generation).1.cached = p.cached := by
  unfold receive
  split
  · exact Or.inr ⟨nofun, rfl⟩
  split
  · exact Or.inr ⟨nofun, rfl⟩
  split
  · exact Or.inr ⟨nofun, rfl⟩
  cases ast with
  | none => exact Or.inr ⟨nofun, rfl⟩
  | some content => exact Or.inl ⟨rfl, content, rfl, rfl⟩

namespace Delivery

variable {d : Delivery U A} {p : Provider U A}

theorem slot (d : Delivery U A) (p : Provider U A) :
    ((d.outcome p).reply = .installed ∧ ∃ content, d.ast = some content ∧
        (d.outcome p).provider.cached = some (d.tree content)) ∨
      (d.outcome p).reply ≠ .installed ∧ (d.outcome p).provider.cached = p.cached :=
  p.receive_slot d.id d.ast d.unit d.generation

theorem made?_some {tree : Tree U A} (made : d.made? p = some tree) :
    (d.outcome p).provider.cached = some tree ∧ tree.origin ≠ .detached := by
  rcases d.slot p with ⟨reply, content, full, cached⟩ | ⟨other, _⟩
  · rw [made?, if_pos reply, full] at made
    cases made
    exact ⟨cached, nofun⟩
  · rw [made?, if_neg other] at made
    cases made

theorem made?_none (none : d.made? p = none) : (d.outcome p).provider.cached = p.cached := by
  rcases d.slot p with ⟨reply, content, full, _⟩ | ⟨_, same⟩
  · rw [made?, if_pos reply, full] at none
    cases none
  · exact same

end Delivery

inductive Custody.Change (c : Custody U A) (s after : System U A) : Custody U A → Prop where
  | asked {r : Request U A} :
      after.provider = s.provider → after.requests = s.requests ++ [r] → r.stage = .validating →
      Change c s after { c with held := c.held ++ [none] }
  | settled :
      s.provider.AddsNone after.provider → after.requests = s.requests →
      Change c s after (c.settle after.provider)
  | made {tree : Tree U A} :
      after.provider.cached = some tree → tree.origin ≠ .detached → after.requests = s.requests →
      Change c s after (c.write ⟨s.history.length, tree⟩)
  | moved {i : Nat} {r next : Request U A} {object : Option (TreeObject U A)} :
      s.requests[i]? = some r → after.requests = s.requests.set i next →
      after.provider = s.provider → object.map TreeObject.tree = next.stage.tree? →
      (∀ o, object = some o →
        c.cached = some o ∨ c.held[i]? = some (some o) ∨ o.made = s.history.length) →
      (∀ tree since, next.stage = .installing tree since →
        tree.origin = .foreground ∧ ∃ o, object = some o ∧ o.made = s.history.length) →
      Change c s after { c with held := c.held.set i object }
  | offered {i : Nat} {r next : Request U A} {tree : Tree U A} {since : Generation}
      {o : TreeObject U A} :
      s.requests[i]? = some r → r.stage = .installing tree since →
      after.requests = s.requests.set i next → next.stage = .answered (some tree) →
      after.provider.cached = some tree → c.held[i]? = some (some o) →
      Change c s after ({ c with held := c.held.set i (some o) }.write o)

namespace Custody

structure Past (c : Custody U A) (moment : Nat) : Prop where
  written : ∀ o ∈ c.written, o.made < moment
  held : ∀ (i : Nat) (o : TreeObject U A), c.held[i]? = some (some o) → o.made < moment

/-- The object that request `i` has in hand is in no other hands and was not written. -/
structure Reserved (c : Custody U A) (i : Nat) (o : TreeObject U A) : Prop where
  unwritten : ∀ w ∈ c.written, w.made ≠ o.made
  alone : ∀ (j : Nat) (other : TreeObject U A), j ≠ i → c.held[j]? = some (some other) →
    other.made ≠ o.made

/-- The custody agrees with the state, every object was made once and written at
most once, and an object on offer is reserved. -/
structure Sound (c : Custody U A) (s : System U A) : Prop where
  past : c.Past s.history.length
  cached : c.cached.map TreeObject.tree = s.provider.cached
  held : c.held.map (Option.map TreeObject.tree) = s.requests.map fun r => r.stage.tree?
  listed : ∀ o, c.cached = some o → o ∈ c.written
  once : (c.written.map TreeObject.made).Nodup
  own : ∀ o ∈ c.written, o.tree.origin ≠ .detached
  offer : ∀ (i : Nat) (r : Request U A) (tree : Tree U A) (since : Generation)
    (o : TreeObject U A), s.requests[i]? = some r → r.stage = .installing tree since →
    c.held[i]? = some (some o) → tree.origin = .foreground ∧ c.Reserved i o

section Hands

omit [DecidableEq U]

variable {c : Custody U A} {moment more i j : Nat} {o new : TreeObject U A}
  {object old : Option (TreeObject U A)}

theorem Past.mono (past : c.Past moment) (le : moment ≤ more) : c.Past more :=
  ⟨fun o member => Nat.lt_of_lt_of_le (past.written o member) le,
    fun i o mine => Nat.lt_of_lt_of_le (past.held i o mine) le⟩

theorem Past.ask (past : c.Past moment) : ({ c with held := c.held ++ [none] } : Custody U A).Past moment := by
  refine ⟨past.written, fun i o mine => ?_⟩
  rcases entry_append.mp mine with before | ⟨_, none⟩
  · exact past.held i o before
  · cases none

theorem Past.write (past : c.Past moment) (earlier : new.made < moment) : (c.write new).Past moment := by
  refine ⟨List.forall_mem_append.mpr ⟨past.written, ?_⟩, past.held⟩
  simpa using earlier

theorem Past.hold (past : c.Past moment) (inside : c.held[j]? = some old)
    (earlier : ∀ o, object = some o → o.made < moment) :
    ({ c with held := c.held.set j object } : Custody U A).Past moment := by
  refine ⟨past.written, fun i o mine => ?_⟩
  rcases getElem?_set_cases inside mine with ⟨_, rfl⟩ | ⟨_, before⟩
  · exact earlier o rfl
  · exact past.held i o before

theorem once_write (once : (c.written.map TreeObject.made).Nodup)
    (other : ∀ w ∈ c.written, w.made ≠ new.made) :
    ((c.write new).written.map TreeObject.made).Nodup := by
  simp only [write, List.map_append, List.map_cons, List.map_nil]
  refine List.nodup_append.mpr ⟨once, by simp, ?_⟩
  simpa using other

theorem Reserved.ask (reserved : c.Reserved i o) :
    ({ c with held := c.held ++ [none] } : Custody U A).Reserved i o := by
  refine ⟨reserved.unwritten, fun j other apart theirs => ?_⟩
  rcases entry_append.mp theirs with before | ⟨_, none⟩
  · exact reserved.alone j other apart before
  · cases none

theorem Reserved.write (reserved : c.Reserved i o) (other : new.made ≠ o.made) :
    (c.write new).Reserved i o := by
  refine ⟨List.forall_mem_append.mpr ⟨reserved.unwritten, ?_⟩, reserved.alone⟩
  simpa using other

theorem Reserved.hold (reserved : c.Reserved i o) (inside : c.held[j]? = some old)
    (other : ∀ new, object = some new → new.made ≠ o.made) :
    ({ c with held := c.held.set j object } : Custody U A).Reserved i o := by
  refine ⟨reserved.unwritten, fun k new apart theirs => ?_⟩
  rcases getElem?_set_cases inside theirs with ⟨_, rfl⟩ | ⟨_, before⟩
  · exact other new rfl
  · exact reserved.alone k new apart before

end Hands

end Custody

namespace Custody.Sound

variable {c d : Custody U A} {s after : System U A}

omit [DecidableEq U] in
theorem hand (sound : c.Sound s) {i : Nat} {r : Request U A} (found : s.requests[i]? = some r) :
    ∃ object, c.held[i]? = some object ∧ object.map TreeObject.tree = r.stage.tree? := by
  have same := congrArg (·[i]?) sound.held
  simp only [List.getElem?_map, found, Option.map_some] at same
  exact Option.map_eq_some_iff.mp same

omit [DecidableEq U] in
theorem emptied {i : Nat} {r next : Request U A} (found : s.requests[i]? = some r)
    (requests : after.requests = s.requests.set i next) (provider : after.provider = s.provider)
    (empty : next.stage.tree? = none) :
    c.Change s after { c with held := c.held.set i none } := by
  have nothing : (none : Option (TreeObject U A)).map TreeObject.tree = next.stage.tree? :=
    empty.symm
  apply Change.moved found requests provider nothing
  · rintro o ⟨⟩
  · intro tree since ready
    rw [ready] at empty
    cases empty

theorem moved_kept {i : Nat} {move : Request.Move A} {next : Request U A}
    (reached : after.tree? i = next.stage.tree?) (kept : s.takes i move = false) :
    c.moved s i move after =
      { c with held := c.held.set i (next.stage.tree?.bind fun tree => c.inHand s i tree move) } := by
  simp [Custody.moved, reached, kept]

/-- When the cache takes a tree, it is the object that the request held. -/
theorem moved_taken {i : Nat} {cancelled : Bool} {o : TreeObject U A}
    (reached : after.tree? i = some o.tree) (taken : s.takes i (.install cancelled) = true)
    (held : c.held[i]? = some (some o)) :
    c.moved s i (.install cancelled) after =
      ({ c with held := c.held.set i (some o) }.write o) := by
  simp [Custody.moved, reached, taken, Custody.inHand, held]

omit [DecidableEq U] in
theorem finished {i : Nat} {r next : Request U A} {cancelled : Bool} {ending : Ending A}
    (found : s.requests[i]? = some r) (requests : after.requests = s.requests.set i next)
    (provider : after.provider = s.provider)
    (offer : ∀ tree since, next.stage = .installing tree since → tree.origin = .foreground) :
    c.Change s after { c with
      held := c.held.set i
        (next.stage.tree?.bind fun tree => c.inHand s i tree (.finish cancelled ending)) } := by
  apply Change.moved found requests provider
  · cases next.stage.tree? <;> rfl
  · intro o object
    obtain ⟨tree, _, same⟩ := Option.bind_eq_some_iff.mp object
    cases same
    exact Or.inr (Or.inr rfl)
  · intro tree since ready
    rw [ready]
    exact ⟨offer tree since ready, _, rfl, rfl⟩

theorem request {limits : Limits} {i : Nat} {move : Request.Move A} (sound : c.Sound s)
    (stepped : s.step? limits (.request i move) = some after) :
    c.Change s after (c.moved s i move after) := by
  obtain ⟨r, next, p, notes, found, moved, rfl⟩ := System.moveRequest?_moved stepped
  have reached : ({ s with provider := p, requests := s.requests.set i next }.record
      (move.happening i r.unit) notes).tree? i = next.stage.tree? := by
    have inside := (List.getElem?_eq_some_iff.mp found).1
    simp [System.tree?, System.record, inside]
  obtain ⟨object, held, same⟩ := sound.hand found
  have course := Request.move?_course moved
  generalize Note.events notes = events at course
  cases course with
  | looked _ glance =>
    -- After a look a request has the cached tree in hand, or nothing.
    have sight := glance.sight
    rw [moved_kept reached rfl]
    refine .moved found rfl rfl ?_ ?_ ?_
    · generalize next.stage = stage at sight ⊢
      cases sight with
      | again | asleep | refused | detached | foreground => rfl
      | served cached => exact sound.cached.trans cached
    · intro o mine
      obtain ⟨tree, _, same⟩ := Option.bind_eq_some_iff.mp mine
      exact Or.inl same
    · intro tree since ready
      rw [ready] at sight
      cases sight
  | woken | failed | dropped | withdrawn =>
    rw [moved_kept reached rfl]
    exact emptied found rfl rfl rfl
  | called parsing =>
    rw [moved_kept reached rfl, parsing]
    exact emptied found rfl rfl (by rw [parsing]; rfl)
  | detached =>
    rw [moved_kept reached rfl]
    exact finished found rfl rfl fun _ _ ready => by cases ready
  | parsed =>
    rw [moved_kept reached rfl]
    refine finished found rfl rfl fun tree since ready => ?_
    cases ready
    rfl
  | superseded ready refused =>
    rw [ready] at same
    obtain ⟨o, rfl, rfl⟩ := Option.map_eq_some_iff.mp same
    -- The request is answered with its own object, which stays out of the cache.
    rw [moved_kept reached (by simp [System.takes, found, ready, refused])]
    refine .moved found rfl rfl ?_ ?_ ?_
    · simp [Request.answer, Stage.tree?, Custody.inHand, held]
    · intro other mine
      simp only [Request.answer, Stage.tree?, Custody.inHand, held] at mine
      cases mine
      exact Or.inr (Or.inl held)
    · rintro tree since ⟨⟩
  | installed ready taken =>
    rw [ready] at same
    obtain ⟨o, rfl, rfl⟩ := Option.map_eq_some_iff.mp same
    have takes : s.takes i (.install false) = true := by
      simp [System.takes, found, ready, taken]
    rw [moved_taken reached takes held]
    refine .offered found ready rfl rfl ?_ held
    obtain ⟨_, _, _, _, rfl⟩ := Provider.installForeground?_some taken
    rfl

theorem change {limits : Limits} {act : Act U A} (sound : c.Sound s)
    (stepped : s.step? limits act = some after) : c.Change s after (c.follow s act after) := by
  by_cases asked : ∃ unit policy, act = .ask unit policy
  · obtain ⟨unit, policy, rfl⟩ := asked
    cases stepped
    exact .asked rfl rfl rfl
  by_cases owned : ∃ i move, act = .request i move
  · obtain ⟨i, move, rfl⟩ := owned
    exact sound.request stepped
  · have other : ∀ i move, act ≠ .request i move := fun i move is => owned ⟨i, move, is⟩
    have unasked : ∀ unit policy, act ≠ .ask unit policy :=
      fun unit policy is => asked ⟨unit, policy, is⟩
    have requests := System.step?_requests stepped other unasked
    rw [follow_other other unasked]
    -- No request moves, so the cache is written by a delivery only.
    cases due : s.delivery? act with
    | none => exact .settled (System.step?_addsNone due other stepped) requests
    | some d =>
      obtain ⟨outcome, _⟩ := System.step?_delivery due stepped
      cases made : d.made? s.provider with
      | none =>
        simp only [Option.bind_some, made]
        refine .settled (fun tree cached => ?_) requests
        rwa [outcome, Delivery.made?_none made] at cached
      | some tree =>
        simp only [Option.bind_some, made]
        obtain ⟨cached, own⟩ := Delivery.made?_some made
        rw [← outcome] at cached
        exact .made cached own requests

/-! One lemma for each way in which the custody changes. -/

section Changes

omit [DecidableEq U]

theorem asked {r : Request U A} (sound : c.Sound s) (longer : s.history.length < after.history.length)
    (provider : after.provider = s.provider) (requests : after.requests = s.requests ++ [r])
    (fresh : r.stage = .validating) :
    ({ c with held := c.held ++ [none] } : Custody U A).Sound after where
  past := sound.past.ask.mono (Nat.le_of_lt longer)
  cached := sound.cached.trans (by rw [provider])
  held := by simp [requests, sound.held, fresh, Stage.tree?]
  listed := sound.listed
  once := sound.once
  own := sound.own
  offer := by
    intro i r' tree since o found ready mine
    rw [requests] at found
    rcases entry_append.mp found with old | ⟨_, rfl⟩
    · rcases entry_append.mp mine with before | ⟨_, none⟩
      · obtain ⟨own, reserved⟩ := sound.offer i r' tree since o old ready before
        exact ⟨own, reserved.ask⟩
      · cases none
    · rw [fresh] at ready
      cases ready

theorem settled (sound : c.Sound s) (longer : s.history.length < after.history.length)
    (adds : s.provider.AddsNone after.provider) (requests : after.requests = s.requests) :
    (c.settle after.provider).Sound after where
  past := ⟨(sound.past.mono (Nat.le_of_lt longer)).written, (sound.past.mono (Nat.le_of_lt longer)).held⟩
  cached := by
    cases slot : after.provider.cached with
    | none => simp [settle, slot]
    | some tree =>
      have same := sound.cached.trans (adds tree slot)
      simpa [settle, slot] using same
  held := by
    rw [requests]
    exact sound.held
  listed := by
    intro o cached
    exact sound.listed o (Option.filter_eq_some_iff.mp cached).1
  once := sound.once
  own := sound.own
  offer := by
    intro i r tree since o found ready mine
    rw [requests] at found
    obtain ⟨own, reserved⟩ := sound.offer i r tree since o found ready mine
    exact ⟨own, reserved.unwritten, reserved.alone⟩

theorem wrote {o : TreeObject U A} (sound : c.Sound s)
    (longer : s.history.length < after.history.length) (requests : after.requests = s.requests)
    (cached : after.provider.cached = some o.tree) (own : o.tree.origin ≠ .detached)
    (now : o.made = s.history.length) : (c.write o).Sound after where
  past := (sound.past.mono (Nat.le_of_lt longer)).write (by omega)
  cached := cached.symm
  held := by
    rw [requests]
    exact sound.held
  listed := by
    intro other same
    cases same
    exact List.mem_append_right _ List.mem_cons_self
  once := by
    apply once_write sound.once
    intro w member
    have past := sound.past.written w member
    omega
  own := List.forall_mem_append.mpr ⟨sound.own, by simpa using own⟩
  offer := by
    intro i r tree since other found ready mine
    rw [requests] at found
    obtain ⟨foreground, reserved⟩ := sound.offer i r tree since other found ready mine
    refine ⟨foreground, reserved.write ?_⟩
    have past := sound.past.held i other mine
    omega

theorem moved {i : Nat} {r next : Request U A} {object : Option (TreeObject U A)}
    (sound : c.Sound s) (longer : s.history.length < after.history.length)
    (found : s.requests[i]? = some r) (requests : after.requests = s.requests.set i next)
    (provider : after.provider = s.provider)
    (mirrored : object.map TreeObject.tree = next.stage.tree?)
    (source : ∀ o, object = some o →
      c.cached = some o ∨ c.held[i]? = some (some o) ∨ o.made = s.history.length)
    (made : ∀ tree since, next.stage = .installing tree since →
      tree.origin = .foreground ∧ ∃ o, object = some o ∧ o.made = s.history.length) :
    ({ c with held := c.held.set i object } : Custody U A).Sound after := by
  obtain ⟨old, inside, _⟩ := sound.hand found
  constructor
  case past =>
    apply (sound.past.mono (Nat.le_of_lt longer)).hold inside
    intro o same
    rcases source o same with cached | held | now
    · exact Nat.lt_trans (sound.past.written o (sound.listed o cached)) longer
    · exact Nat.lt_trans (sound.past.held i o held) longer
    · omega
  case cached => exact sound.cached.trans (by rw [provider])
  case held => rw [requests, List.map_set, List.map_set, sound.held, mirrored]
  case listed => exact sound.listed
  case once => exact sound.once
  case own => exact sound.own
  case offer =>
    intro j r' tree since o found' ready mine
    rw [requests] at found'
    rcases getElem?_set_cases found found' with ⟨rfl, rfl⟩ | ⟨apart, before⟩
    · -- The tree on offer was made just now, so nobody else can have it.
      obtain ⟨own, new, same, now⟩ := made tree since ready
      rcases getElem?_set_cases inside mine with ⟨_, hand⟩ | ⟨apart, _⟩
      · cases same.symm.trans hand
        refine ⟨own, fun w member => ?_, fun k other apart theirs => ?_⟩
        · have past := sound.past.written w member
          omega
        · rcases getElem?_set_cases inside theirs with ⟨here, _⟩ | ⟨_, there⟩
          · exact absurd here apart
          · have past := sound.past.held k other there
            omega
      · exact absurd rfl apart
    · rcases getElem?_set_cases inside mine with ⟨here, _⟩ | ⟨_, hand⟩
      · exact absurd here apart
      · obtain ⟨own, reserved⟩ := sound.offer j r' tree since o before ready hand
        refine ⟨own, reserved.hold inside fun new same => ?_⟩
        rcases source new same with cached | held | now
        · exact reserved.unwritten new (sound.listed new cached)
        · exact reserved.alone i new (Ne.symm apart) held
        · have past := sound.past.held j o hand
          omega

theorem offered {i : Nat} {r next : Request U A} {tree : Tree U A} {since : Generation}
    {o : TreeObject U A} (sound : c.Sound s) (longer : s.history.length < after.history.length)
    (found : s.requests[i]? = some r) (ready : r.stage = .installing tree since)
    (requests : after.requests = s.requests.set i next) (done : next.stage = .answered (some tree))
    (cached : after.provider.cached = some tree) (mine : c.held[i]? = some (some o)) :
    ({ c with held := c.held.set i (some o) }.write o).Sound after := by
  obtain ⟨foreground, reserved⟩ := sound.offer i r tree since o found ready mine
  obtain ⟨object, hand, same⟩ := sound.hand found
  cases mine.symm.trans hand
  rw [ready] at same
  obtain rfl : o.tree = tree := by simpa [Stage.tree?] using same
  have past := sound.past.held i o mine
  constructor
  case past =>
    apply Past.write
    · apply (sound.past.mono (Nat.le_of_lt longer)).hold mine
      intro other same
      cases same
      exact Nat.lt_trans past longer
    · exact Nat.lt_trans past longer
  case cached => exact cached.symm
  case held =>
    change (c.held.set i (some o)).map (Option.map TreeObject.tree) = _
    rw [requests, List.map_set, List.map_set, sound.held, done]
    rfl
  case listed =>
    intro other same
    cases same
    exact List.mem_append_right _ List.mem_cons_self
  case once => exact once_write sound.once reserved.unwritten
  case own =>
    refine List.forall_mem_append.mpr ⟨sound.own, ?_⟩
    simp [foreground]
  case offer =>
    intro j r' tree since' other found' ready' theirs
    rw [requests] at found'
    rcases getElem?_set_cases found found' with ⟨rfl, rfl⟩ | ⟨apart, before⟩
    · rw [done] at ready'
      cases ready'
    · rcases getElem?_set_cases mine theirs with ⟨here, _⟩ | ⟨_, hand⟩
      · exact absurd here apart
      · obtain ⟨own, reserved⟩ := sound.offer j r' tree since' other before ready' hand
        -- The object written now was reserved, so it is on offer by nobody else.
        have elsewhere := reserved.alone i o (Ne.symm apart) mine
        refine ⟨own, (reserved.hold mine fun new same => ?_).write elsewhere⟩
        cases same
        exact elsewhere

theorem step {happening : Happening U A} (sound : c.Sound s) (change : c.Change s after d)
    (grown : after.history = s.history ++ [happening]) : d.Sound after := by
  have longer : s.history.length < after.history.length := by simp [grown]
  cases change with
  | asked provider requests fresh => exact sound.asked longer provider requests fresh
  | settled adds requests => exact sound.settled longer adds requests
  | made cached own requests => exact sound.wrote longer requests cached own rfl
  | moved found requests provider mirrored source made =>
    exact sound.moved longer found requests provider mirrored source made
  | offered found ready requests done cached mine =>
    exact sound.offered longer found ready requests done cached mine

end Changes

omit [DecidableEq U] in
theorem start : ({} : Custody U A).Sound {} where
  past := ⟨by simp, by simp⟩
  cached := rfl
  held := rfl
  listed := by simp
  once := by simp
  own := by simp
  offer := by simp

end Custody.Sound

theorem Custody.along_invariant {limits : Limits} {motive : Custody U A → System U A → Prop}
    (preserved : ∀ c s act after, motive c s → s.step? limits act = some after →
      motive (c.follow s act after) after)
    {c : Custody U A} {s last : System U A} {acts : List (Act U A)} (holds : motive c s)
    (ran : s.run? limits acts = some last) : motive (c.along limits s acts) last := by
  induction acts generalizing c s with
  | nil =>
    cases ran
    exact holds
  | cons act rest ih =>
    simp only [System.run?] at ran
    split at ran
    · cases ran
    · rename_i next stepped
      simp only [Custody.along, stepped]
      exact ih (preserved c s act next holds stepped) ran

theorem Custody.Sound.follow {limits : Limits} {c : Custody U A} {s after : System U A}
    {act : Act U A} (sound : c.Sound s) (stepped : s.step? limits act = some after) :
    (c.follow s act after).Sound after := by
  obtain ⟨happening, turn⟩ := System.step?_turned stepped
  exact sound.step (sound.change stepped) turn.history

theorem Custody.Sound.along {limits : Limits} {c : Custody U A} {s last : System U A}
    {acts : List (Act U A)} (sound : c.Sound s) (ran : s.run? limits acts = some last) :
    (c.along limits s acts).Sound last :=
  Custody.along_invariant (fun _ _ _ _ sound stepped => sound.follow stepped) sound ran

theorem Custody.ofRun_sound {limits : Limits} {acts : List (Act U A)} {last : System U A}
    (ran : System.run? limits {} acts = some last) : (Custody.ofRun limits acts).Sound last :=
  .along .start ran

/-- What every change preserves holds of the custody after every run. -/
theorem Custody.Sound.along_changes {limits : Limits} {motive : Custody U A → Prop}
    (preserved : ∀ c d s after, c.Sound s → c.Change s after d → motive c → motive d)
    {c : Custody U A} {s last : System U A} {acts : List (Act U A)} (sound : c.Sound s)
    (holds : motive c) (ran : s.run? limits acts = some last) :
    motive (c.along limits s acts) := by
  have both := Custody.along_invariant (motive := fun c s => c.Sound s ∧ motive c)
    (fun c s act after holds stepped => ⟨holds.1.follow stepped,
      preserved c _ s after holds.1 (holds.1.change stepped) holds.2⟩) ⟨sound, holds⟩ ran
  exact both.2

/-- An object that was written once and then left the cache, by its name. No
request from `count` on has it in hand. -/
structure Custody.Gone (c : Custody U A) (name count : Nat) : Prop where
  written : ∃ o ∈ c.written, o.made = name
  uncached : ∀ o, c.cached = some o → o.made ≠ name
  unheld : ∀ (i : Nat) (o : TreeObject U A), count ≤ i → c.held[i]? = some (some o) →
    o.made ≠ name

namespace Custody.Gone

variable {c d : Custody U A} {s after : System U A} {name count : Nat}

omit [DecidableEq U] in
theorem step (gone : c.Gone name count) (sound : c.Sound s) (change : c.Change s after d) :
    d.Gone name count := by
  obtain ⟨w, member, rfl⟩ := gone.written
  cases change with
  | asked =>
    refine ⟨gone.written, gone.uncached, fun i o new mine => ?_⟩
    rcases entry_append.mp mine with before | ⟨_, none⟩
    · exact gone.unheld i o new before
    · cases none
  | settled =>
    refine ⟨gone.written, fun o cached => ?_, gone.unheld⟩
    exact gone.uncached o (Option.filter_eq_some_iff.mp cached).1
  | made =>
    refine ⟨⟨w, List.mem_append_left _ member, rfl⟩, fun o cached => ?_, gone.unheld⟩
    cases cached
    exact Nat.ne_of_gt (sound.past.written w member)
  | @moved i r next object found _ _ _ source =>
    obtain ⟨old, inside, _⟩ := sound.hand found
    refine ⟨gone.written, gone.uncached, fun j o new mine => ?_⟩
    rcases getElem?_set_cases inside mine with ⟨rfl, rfl⟩ | ⟨_, before⟩
    · rcases source o rfl with cached | held | now
      · exact gone.uncached o cached
      · exact gone.unheld j o new held
      · rw [now]
        exact Nat.ne_of_gt (sound.past.written w member)
    · exact gone.unheld j o new before
  | @offered i r next tree since o found ready _ _ _ mine =>
    obtain ⟨_, reserved⟩ := sound.offer i r tree since o found ready mine
    -- What is offered was never written before, so it is not the object that left.
    refine ⟨⟨w, List.mem_append_left _ member, rfl⟩, fun other cached => ?_, fun j other new hand => ?_⟩
    · cases cached
      exact (reserved.unwritten w member).symm
    · rcases getElem?_set_cases mine hand with ⟨rfl, same⟩ | ⟨_, before⟩
      · cases same
        exact gone.unheld j o new mine
      · exact gone.unheld j other new before

theorem along {limits : Limits} {acts : List (Act U A)} {last : System U A}
    (gone : c.Gone name count) (sound : c.Sound s) (ran : s.run? limits acts = some last) :
    (c.along limits s acts).Gone name count :=
  sound.along_changes (motive := fun c => c.Gone name count)
    (fun _ _ _ _ sound change gone => Gone.step gone sound change) gone ran

end Custody.Gone

namespace Custody

variable {limits : Limits} {c d : Custody U A} {s t last : System U A}

omit [DecidableEq U] in
theorem Change.written_le (change : c.Change s t d) {o : TreeObject U A} (member : o ∈ c.written) :
    o ∈ d.written := by
  cases change with
  | asked | settled | moved => exact member
  | made | offered => exact List.mem_append_left _ member

theorem along_written {acts : List (Act U A)} {o : TreeObject U A} (sound : c.Sound s)
    (member : o ∈ c.written) (ran : s.run? limits acts = some last) :
    o ∈ (c.along limits s acts).written :=
  sound.along_changes (motive := fun c => o ∈ c.written)
    (fun _ _ _ _ _ change member => change.written_le member) member ran

theorem along_append {first second : List (Act U A)} (ran : s.run? limits first = some t) :
    c.along limits s (first ++ second) = (c.along limits s first).along limits t second := by
  induction first generalizing c s with
  | nil =>
    cases ran
    rfl
  | cons act rest ih =>
    simp only [System.run?] at ran
    split at ran
    · cases ran
    · rename_i next stepped
      simp only [List.cons_append, along, stepped]
      exact ih ran

end Custody

variable {limits : Limits} {early middle later : List (Act U A)} {s t last : System U A}

/-- In every run, however its acts interleave, each tree object is written into
the cache at most once, and no detached one ever is. Once an object has left the
cache it is never cached again, and no request that is made from then on gets
hold of it. -/
theorem evicted_trees_stay_out (begun : System.run? limits {} early = some s)
    (went : s.run? limits middle = some t) (goes : t.run? limits later = some last) :
    ((Custody.ofRun limits early).cached.map TreeObject.tree = s.provider.cached ∧
        (Custody.ofRun limits early).held.map (Option.map TreeObject.tree) =
          s.requests.map fun r => r.stage.tree?) ∧
      ((Custody.ofRun limits early).written.map TreeObject.made).Nodup ∧
      (∀ o ∈ (Custody.ofRun limits early).written, o.tree.origin ≠ .detached) ∧
      ∀ o, (Custody.ofRun limits early).cached = some o →
        o ∈ (Custody.ofRun limits early).written ∧
          ((Custody.ofRun limits (early ++ middle)).cached.map TreeObject.made ≠ some o.made →
            (Custody.ofRun limits (early ++ middle ++ later)).cached.map TreeObject.made ≠
                some o.made ∧
              ∀ (i : Nat) (other : TreeObject U A), t.requests.length ≤ i →
                (Custody.ofRun limits (early ++ middle ++ later)).held[i]? = some (some other) →
                other.made ≠ o.made) := by
  have sound := Custody.ofRun_sound begun
  refine ⟨⟨sound.cached, sound.held⟩, sound.once, sound.own, fun o cached => ?_⟩
  have listed := sound.listed o cached
  refine ⟨listed, fun left => ?_⟩
  have meanwhile : Custody.ofRun limits (early ++ middle) =
      (Custody.ofRun limits early).along limits s middle := Custody.along_append begun
  have atLast : Custody.ofRun limits (early ++ middle ++ later) =
      ((Custody.ofRun limits early).along limits s middle).along limits t later := by
    rw [List.append_assoc, ← Custody.along_append went]
    exact Custody.along_append begun
  rw [meanwhile] at left
  rw [atLast]
  have sound' := sound.along went
  -- Between the two states the object left, and requests to come have nothing in hand yet.
  have gone : ((Custody.ofRun limits early).along limits s middle).Gone o.made t.requests.length := by
    refine ⟨⟨o, Custody.along_written sound listed went, rfl⟩, fun other cached same => ?_, ?_⟩
    · apply left
      rw [cached, Option.map_some, same]
    · intro i other new mine
      have short := (List.getElem?_eq_some_iff.mp mine).1
      have length := congrArg List.length sound'.held
      simp only [List.length_map] at length
      omega
  have last := gone.along sound' goes
  refine ⟨fun cached => ?_, fun i other new mine => last.unheld i other new mine⟩
  obtain ⟨other, back, same⟩ := Option.map_eq_some_iff.mp cached
  exact last.uncached other back same

def leavingRun : List (Act Nat Nat) :=
  [.setActive (some 7), .ask 7 .waitForCurrent, .request 0 (.look false), .request 0 .call,
    .request 0 (.finish false (.returned (.ok 4))), .request 0 (.install false)]

def excursionRun : List (Act Nat Nat) := [.setActive (some 8), .setActive (some 7)]

/-- A cycle delivers the same contents again, and request 1 is served with them. -/
def returningRun : List (Act Nat Nat) :=
  [.begin 7, .deliver (some 4) 7 ⟨1⟩, .ask 7 .noWait, .request 1 (.look false)]

theorem evicted_trees_stay_out_excursion :
    ∃ (s t last : System Nat Nat) (o : TreeObject Nat Nat),
      System.run? ⟨{}, 1000⟩ {} leavingRun = some s ∧
        s.run? ⟨{}, 1000⟩ excursionRun = some t ∧ t.run? ⟨{}, 1000⟩ returningRun = some last ∧
        (Custody.ofRun ⟨{}, 1000⟩ leavingRun).cached = some o ∧ t.provider.cached = none ∧
        last.provider.cached = some ⟨9, 7, .reconciled ⟨1⟩, 4⟩ ∧
        ∀ (i : Nat) (other : TreeObject Nat Nat), 1 ≤ i →
          (Custody.ofRun ⟨{}, 1000⟩ (leavingRun ++ excursionRun ++ returningRun)).held[i]? =
            some (some other) → other.made ≠ o.made := by
  have begun : System.run? ⟨{}, 1000⟩ {} leavingRun =
      some ((System.run? ⟨{}, 1000⟩ {} leavingRun).get rfl) := rfl
  have went : ((System.run? ⟨{}, 1000⟩ {} leavingRun).get rfl).run? ⟨{}, 1000⟩ excursionRun =
      some ((System.run? ⟨{}, 1000⟩ {} (leavingRun ++ excursionRun)).get rfl) := rfl
  have goes : ((System.run? ⟨{}, 1000⟩ {} (leavingRun ++ excursionRun)).get rfl).run? ⟨{}, 1000⟩
      returningRun =
        some ((System.run? ⟨{}, 1000⟩ {} (leavingRun ++ excursionRun ++ returningRun)).get rfl) := rfl
  obtain ⟨_, _, _, evicted⟩ := evicted_trees_stay_out begun went goes
  obtain ⟨_, stays⟩ := evicted ⟨4, ⟨3, 7, .foreground, 4⟩⟩ rfl
  exact ⟨_, _, _, _, begun, went, goes, rfl, rfl, rfl, (stays nofun).2⟩

end FreshTree
