import FreshTree.Proofs.Steps

/-!
No cycle is left open with nobody to end it. The latest edit noted of the open
cycle is the last of the duties of the reconciler that noted it, and it leaves
them only when its cycle is completed. A cycle that another one replaced needs
no completion, so older duties may be dropped, and they are.
-/

namespace FreshTree

variable {U A : Type}

def Edit.IsOf (edit : Edit U) (unit : U) (generation : Generation) : Prop :=
  edit.unit = unit ∧ edit.generation = generation

/-- If reconciler `k` noted an edit of the open cycle, then its latest edit is
the last of its duties, and is of that cycle. -/
def Owed (history : List (Happening U A)) (k : Nat) (p : Provider U A) (r : Reconciler U A) :
    Prop :=
  ∀ unit edit, p.cycles.running = some unit → .noted k edit ∈ history →
    edit.IsOf unit p.generation → r.duties.getLast? = some ⟨unit, p.generation, r.noted⟩

theorem Ledger.duty_noted {history : List (Happening U A)} {k : Nat} {r : Reconciler U A}
    (ledger : Ledger history k r) {edit : Edit U} (duty : edit ∈ r.duties) :
    .noted k edit ∈ history := by
  simp only [Reconciler.duties, Reconciler.atWork, List.mem_append, List.mem_map,
    Option.mem_toList] at duty
  rcases duty with (⟨taken, held, rfl⟩ | ⟨inflight, held, rfl⟩) | waits
  · exact ledger.launched_noted _ _ (ledger.taken_launched taken held)
  · exact ledger.launched_noted _ _ (ledger.inflight_launched inflight held)
  · exact ledger.waiting_noted edit waits

theorem Owed.aside {history : List (Happening U A)} {k : Nat} {p q : Provider U A}
    {r : Reconciler U A} {happening : Happening U A} (owed : Owed history k p r)
    (opens : p.OpensNone q) (aside : happening.IsAside k) :
    Owed (history ++ [happening]) k q r := by
  intro unit edit busy noted cycle
  rw [opens.generation] at cycle ⊢
  exact owed unit edit (opens.running unit busy) (mem_of_aside aside noted (absurd rfl ·)) cycle

section Answers

variable {history : List (Happening U A)} {k : Nat} {p : Provider U A} {r after : Reconciler U A}
  {happening : Happening U A}

theorem Owed.keep (owed : Owed history k p r)
    (entered : ∀ edit, .noted k edit ∈ history ++ [happening] → .noted k edit ∈ history)
    (last : after.duties.getLast? = r.duties.getLast?) (noted : after.noted = r.noted) :
    Owed (history ++ [happening]) k p after := by
  intro unit edit busy member cycle
  rw [last, noted]
  exact owed unit edit busy (entered edit member) cycle

/-- Completing the cycle of one duty and striking the duty out leaves the last
duty standing, unless it was the last one, and then no cycle is open any more. -/
theorem Owed.answer [DecidableEq U] {answered : Edit U} {before later : List (Edit U)} (owed : Owed history k p r)
    (service : ∀ unit, p.cycles.running = some unit → p.disposed = false)
    (aside : happening.IsAside k) (held : r.duties = before ++ answered :: later)
    (left : after.duties = before ++ later) (noted : after.noted = r.noted) (id : TreeId)
    (ast : Option A) :
    Owed (history ++ [happening]) k
      (p.complete id ast answered.unit answered.generation).provider after := by
  intro unit edit busy entered cycle
  have opens := p.complete_opensNone id ast answered.unit answered.generation
  have busy' := opens.running unit busy
  rw [opens.generation] at cycle ⊢
  have last := owed unit edit busy' (mem_of_aside aside entered (absurd rfl ·)) cycle
  rw [noted, left]
  rw [held] at last
  cases later with
  | nil =>
    -- The last duty is the one answered, so its cycle is over.
    have same : answered = ⟨unit, p.generation, r.noted⟩ := by simpa using last
    rw [same] at busy
    rw [Provider.complete_ends (service unit busy') busy' id ast] at busy
    cases busy
  | cons next rest => simpa using last

theorem Owed.outdated {taken : Taken U A} (owed : Owed history k p r) (held : r.taken = some taken)
    (stale : r.noted ≠ taken.stamp) (aside : happening.IsAside k) :
    Owed (history ++ [happening]) k p { r with taken := none } := by
  intro unit edit busy entered cycle
  have last := owed unit edit busy (mem_of_aside aside entered (absurd rfl ·)) cycle
  have duties : r.duties = taken.edit :: ({ r with taken := none } : Reconciler U A).duties := by
    simp [Reconciler.duties, Reconciler.atWork, Reconciler.waiting, held]
  rw [duties] at last
  cases rest : ({ r with taken := none } : Reconciler U A).duties with
  | nil =>
    -- The result would be that of the latest edit, whose stamp is the count.
    rw [rest] at last
    have same : taken.edit = ⟨unit, p.generation, r.noted⟩ := by simpa using last
    exact absurd (congrArg Edit.stamp same).symm stale
  | cons next others =>
    rw [rest] at last
    simpa using last

end Answers

theorem Owed.move [DecidableEq U] {history : List (Happening U A)} {k : Nat} {p q : Provider U A}
    {r after : Reconciler U A} {happening : Happening U A} (owed : Owed history k p r)
    (ledger : Ledger history k r)
    (service : ∀ unit, p.cycles.running = some unit → p.disposed = false)
    (effect : r.Effect history k p after q happening) (alive : after.phase ≠ .killed) :
    Owed (history ++ [happening]) k q after := by
  cases effect with
  | @noted opened edit free _ same =>
    intro unit _ busy _ _
    rw [Provider.invalidate_cycles, Cycles.begin_running] at busy
    cases busy
    have last : ({ r with noted := r.noted + 1, noting := some edit } : Reconciler U A).duties =
        r.duties ++ [edit] := by
      simp [Reconciler.duties, Reconciler.waiting, Reconciler.atWork, free]
    rw [last, List.getLast?_concat, same]
    simp [Provider.generation]
  | refused gone =>
    -- A provider that refuses edits has no cycle open.
    intro unit edit busy
    rw [service unit busy] at gone
    cases gone
  | called | returned => exact owed.keep (by simp) rfl rfl
  | launched running idle none held =>
    refine owed.keep (by simp) ?_ rfl
    simp [Reconciler.duties, Reconciler.atWork, Reconciler.waiting, Reconciler.launch, idle, none,
      held, List.getLast?_cons]
  | @took parsed rest inflight running idle results flies same =>
    refine owed.keep (by simp) ?_ rfl
    have edit := ledger.taken_edit (by simp [results]) flies same
    simp [Reconciler.duties, Reconciler.atWork, Reconciler.waiting, idle, flies, edit]
  | @judged taken held free current =>
    have aside : (Happening.worked k (.judge taken) : Happening U A).IsAside k := trivial
    -- The edit judged is the first duty, so the last one stays, unless it is the same.
    have first : r.duties = [] ++ taken.edit :: ({ r with taken := none } : Reconciler U A).duties := by
      simp [Reconciler.duties, Reconciler.atWork, Reconciler.waiting, held]
    exact owed.answer service aside first rfl rfl _ _
  | outdated held stale => exact owed.outdated held stale trivial
  | forsook stopped forgets held left plain =>
    exact owed.answer service (plain.isAside k) held left forgets.noted _ _
  | kept forgets last alive plain =>
    exact owed.keep (fun _ member => mem_of_aside (plain.isAside k) member (absurd rfl ·)) last
      forgets.noted
  | killed forgets dead aside => exact absurd dead alive

structure Tracked (edits : Nat) (history : List (Happening U A)) (p : Provider U A) : Prop where
  generation_le : p.generation.toNat ≤ edits
  noted_le : ∀ k edit, .noted k edit ∈ history → edit.generation.toNat ≤ p.generation.toNat
  service : ∀ unit, p.cycles.running = some unit → p.disposed = false
  opened : ∀ unit, p.cycles.running = some unit →
    ∃ k edit, .noted k edit ∈ history ∧ edit.IsOf unit p.generation

namespace Tracked

variable {edits : Nat} {history : List (Happening U A)} {p q : Provider U A}

theorem keep {more : Nat} {happening : Happening U A} (tracked : Tracked edits history p)
    (opens : p.OpensNone q) (grows : edits ≤ more) (quiet : ∀ k edit, happening ≠ .noted k edit) :
    Tracked more (history ++ [happening]) q where
  generation_le := by
    rw [opens.generation]
    exact Nat.le_trans tracked.generation_le grows
  noted_le := by
    intro k edit member
    rw [opens.generation]
    exact tracked.noted_le k edit ((mem_grown.mp member).resolve_right (quiet k edit))
  service := by
    intro unit busy
    have service := tracked.service unit (opens.running unit busy)
    apply Bool.eq_false_iff.mpr
    intro gone
    rcases opens.disposed gone with before | ended
    · rw [service] at before
      cases before
    · rw [ended] at busy
      cases busy
  opened := by
    intro unit busy
    obtain ⟨k, edit, member, cycle⟩ := tracked.opened unit (opens.running unit busy)
    rw [opens.generation]
    exact ⟨k, edit, List.mem_append_left _ member, cycle⟩

variable [DecidableEq U]

/-- Opening a cycle uses up one edit, and joining one costs none. -/
theorem begin_le (tracked : Tracked edits history p) (few : edits + 1 < UInt64.size) (unit : U) :
    p.generation.toNat ≤ (p.cycles.begin unit).generation.toNat ∧
      (p.cycles.begin unit).generation.toNat ≤ edits + 1 := by
  have bound := tracked.generation_le
  rw [Cycles.begin_generation]
  split
  · exact ⟨Nat.le_refl _, Nat.le_succ_of_le bound⟩
  · have next : p.generation.next.toNat = p.generation.toNat + 1 :=
      Generation.next_toNat (by omega)
    change _ ≤ p.generation.next.toNat ∧ p.generation.next.toNat ≤ _
    omega

theorem note {k : Nat} {unit : U} {stamp : UInt64} (tracked : Tracked edits history p)
    (few : edits + 1 < UInt64.size) (service : p.disposed = false) :
    Tracked (edits + 1)
      (history ++ [.noted k ⟨unit, (p.cycles.begin unit).generation, stamp⟩])
      ({ p with cycles := p.cycles.begin unit }.invalidate unit) where
  generation_le := by
    simpa [Provider.generation] using (tracked.begin_le few unit).2
  noted_le := by
    intro k edit member
    have later := (tracked.begin_le few unit).1
    simp only [Provider.generation, Provider.invalidate_cycles]
    rcases mem_grown.mp member with before | now
    · exact Nat.le_trans (tracked.noted_le k edit before) later
    · cases now
      exact Nat.le_refl _
  service := fun _ _ => by rw [Provider.invalidate_disposed]; exact service
  opened := by
    intro other busy
    rw [Provider.invalidate_cycles, Cycles.begin_running] at busy
    cases busy
    refine ⟨k, _, List.mem_append_right _ (List.mem_singleton_self _), rfl, ?_⟩
    simp [Provider.generation]

end Tracked

theorem Owed.elsewhere [DecidableEq U] {edits : Nat} {history : List (Happening U A)} {k : Nat}
    {p : Provider U A} {r : Reconciler U A} {happening : Happening U A}
    (owed : Owed history k p r) (tracked : Tracked edits history p) (few : edits + 1 < UInt64.size)
    (aside : happening.IsAside k) (unit : U) :
    Owed (history ++ [happening]) k ({ p with cycles := p.cycles.begin unit }.invalidate unit) r := by
  intro other edit busy member cycle
  simp only [Provider.generation, Provider.invalidate_cycles, Cycles.begin_running,
    Cycles.begin_generation] at busy cycle ⊢
  cases busy
  have before := mem_of_aside aside member (absurd rfl ·)
  by_cases joined : p.cycles.running = some unit
  · simp only [joined, if_true] at cycle ⊢
    exact owed unit edit joined before cycle
  · -- The cycle is new, and no edit noted before carries its generation.
    simp only [joined, if_false] at cycle
    have old := tracked.noted_le k edit before
    have bound := tracked.generation_le
    have next : p.generation.next.toNat = p.generation.toNat + 1 :=
      Generation.next_toNat (by omega)
    have same : edit.generation.toNat = p.generation.next.toNat :=
      congrArg Generation.toNat cycle.2
    omega

structure Sound (s : System U A) : Prop where
  ledger : ∀ (k : Nat) (r : Reconciler U A), s.reconcilers[k]? = some r → Ledger s.history k r
  unknown : ∀ k, s.reconcilers.length ≤ k → ∀ happening ∈ s.history, happening.IsAside k
  counted : ∀ (k : Nat) (r : Reconciler U A), s.reconcilers[k]? = some r →
    r.noted.toNat ≤ s.edits
  dropped : ∀ (k : Nat) (r : Reconciler U A), s.reconcilers[k]? = some r →
    k + 1 < s.reconcilers.length → r.stopped = true ∧ r.noting = none
  shut : ∀ (k : Nat) (r : Reconciler U A), s.reconcilers[k]? = some r → r.Shut
  tracked : Tracked s.edits s.history s.provider
  owed : ∀ (k : Nat) (r : Reconciler U A), s.reconcilers[k]? = some r → r.phase ≠ .killed →
    Owed s.history k s.provider r

namespace Sound

theorem start : Sound ({} : System U A) where
  ledger := by simp
  unknown := by simp
  counted := by simp
  dropped := by simp
  shut := by simp
  tracked := {
    generation_le := by simp [Provider.generation, Generation.initial, Generation.toNat]
    noted_le := by simp
    service := by simp
    opened := by simp }
  owed := by simp

theorem aside {s after : System U A} {happening : Happening U A} (sound : Sound s)
    (grown : after.history = s.history ++ [happening]) (same : after.reconcilers = s.reconcilers)
    (opens : s.provider.OpensNone after.provider) (aside : ∀ k, happening.IsAside k) :
    Sound after where
  ledger := by
    rw [grown, same]
    exact fun k r found => (sound.ledger k r found).forget (.refl r) (aside k)
  unknown := by
    rw [grown, same]
    intro k new entry member
    rcases mem_grown.mp member with before | rfl
    · exact sound.unknown k new entry before
    · exact aside k
  counted := by
    rw [same, System.edits_append grown]
    exact fun k r found => Nat.le_trans (sound.counted k r found) (Nat.le_add_right _ _)
  dropped := same ▸ sound.dropped
  shut := same ▸ sound.shut
  tracked := by
    rw [grown, System.edits_append grown]
    exact sound.tracked.keep opens (Nat.le_add_right _ _) fun k => (aside k).ne_noted
  owed := by
    rw [grown, same]
    exact fun k r found alive => (sound.owed k r found alive).aside opens (aside k)

theorem spawned {s after : System U A} {settings : ReconcilerSettings} {horizon : Instant}
    (sound : Sound s)
    (grown : after.history = s.history ++ [.spawned s.reconcilers.length])
    (more : after.reconcilers = s.reconcilers ++ [Reconciler.spawn settings horizon])
    (same : after.provider = s.provider) (dropped : s.allDropped = true) : Sound after where
  ledger := by
    intro k r found
    rw [grown]
    rw [more] at found
    rcases entry_append.mp found with before | ⟨rfl, rfl⟩
    · exact (sound.ledger k r before).forget (.refl r) trivial
    · refine .spawn settings horizon fun entry member => ?_
      rcases mem_grown.mp member with before | rfl
      · exact sound.unknown _ (Nat.le_refl _) entry before
      · trivial
  unknown := by
    rw [grown, more]
    intro k new entry member
    rcases mem_grown.mp member with before | rfl
    · exact sound.unknown k (Nat.le_of_succ_le (by simpa using new)) entry before
    · trivial
  counted := by
    intro k r found
    rw [System.edits_append grown]
    rw [more] at found
    rcases entry_append.mp found with before | ⟨_, rfl⟩
    · exact Nat.le_trans (sound.counted k r before) (Nat.le_add_right _ _)
    · exact Nat.zero_le _
  dropped := by
    intro k r found older
    rw [more] at found older
    rcases entry_append.mp found with before | ⟨last, _⟩
    · have all := List.all_eq_true.mp dropped r (List.mem_of_getElem? before)
      simpa using all
    · simp [last] at older
  shut := by
    intro k r found
    rw [more] at found
    rcases entry_append.mp found with before | ⟨_, rfl⟩
    · exact sound.shut k r before
    · exact .running rfl
  tracked := by
    rw [grown, System.edits_append grown, same]
    exact sound.tracked.keep (.refl _) (Nat.le_add_right _ _) nofun
  owed := by
    intro k r found alive
    rw [grown, same]
    rw [more] at found
    rcases entry_append.mp found with before | ⟨rfl, _⟩
    · exact (sound.owed k r before alive).aside (.refl _) trivial
    · intro unit edit busy member
      -- Nothing was noted on the newcomer yet.
      have unknown := sound.unknown _ (Nat.le_refl _) (.noted _ edit) (by simpa using member)
      exact absurd rfl unknown

theorem moved_around [DecidableEq U] {s after : System U A} {k : Nat} {r next : Reconciler U A}
    {happening : Happening U A} (sound : Sound s)
    (grown : after.history = s.history ++ [happening])
    (effect : r.Effect s.history k s.provider next after.provider happening)
    (few : after.edits < UInt64.size) :
    Tracked after.edits after.history after.provider ∧
      ∀ (other : Nat) (r' : Reconciler U A), other ≠ k → s.reconcilers[other]? = some r' →
        r'.phase ≠ .killed → Owed after.history other after.provider r' := by
  have counted := System.edits_append grown
  -- Noting an edit is the one move that can open a cycle.
  by_cases note : ∃ edit, happening = .noted k edit
  · obtain ⟨edit, rfl⟩ := note
    rw [grown, counted]
    rw [counted] at few
    have aside : ∀ other, other ≠ k → (Happening.noted k edit).IsAside other := fun _ => effect.aside
    generalize after.provider = q at effect ⊢
    cases effect with
    | @noted unit _ free service same =>
      subst same
      refine ⟨sound.tracked.note few service, fun other r' apart found' alive => ?_⟩
      exact (sound.owed other r' found' alive).elsewhere sound.tracked few (aside other apart) unit
    | forsook _ _ _ _ plain | kept _ _ _ plain | killed _ _ plain => cases plain
  · have quiet : ∀ edit, happening ≠ .noted k edit := fun edit is => note ⟨edit, is⟩
    have opens := effect.opensNone quiet
    rw [grown, counted]
    refine ⟨sound.tracked.keep opens (Nat.le_add_right _ _) fun other edit is => ?_, ?_⟩
    · by_cases here : other = k
      · exact quiet edit (here ▸ is)
      · exact (effect.aside here).ne_noted edit is
    · exact fun other r' apart found' alive =>
        (sound.owed other r' found' alive).aside opens (effect.aside apart)

theorem moved [DecidableEq U] {s after : System U A} {k : Nat} {r : Reconciler U A}
    {move : Reconciler.Move U A} {step : Reconciler.Step U A} {happening : Happening U A} (sound : Sound s)
    (grown : after.history = s.history ++ [happening])
    (set : after.reconcilers = s.reconcilers.set k step.reconciler)
    (same : after.provider = step.provider) (found : s.reconcilers[k]? = some r)
    (mine : move.isOnHandle = true → k + 1 = s.reconcilers.length)
    (moved : r.move? s.timer s.history k s.provider move = some (step, happening))
    (few : after.edits < UInt64.size) : Sound after := by
  have effect := Reconciler.move?_effect moved
  rw [← same] at effect
  have counted := System.edits_append grown
  have inside := (List.getElem?_eq_some_iff.mp found).1
  obtain ⟨tracked, others⟩ := sound.moved_around grown effect few
  constructor
  case tracked => exact tracked
  case ledger =>
    intro i r' found'
    rw [grown]
    rw [set] at found'
    rcases getElem?_set_cases found found' with ⟨rfl, rfl⟩ | ⟨apart, before⟩
    · apply (sound.ledger i r found).move effect
      intro edit
      -- The count of one reconciler is bounded by that of all, so it has not come round.
      have bound := sound.counted i r found
      rw [counted, edit] at few
      exact Nat.lt_of_le_of_lt (Nat.succ_le_succ bound) few
    · exact (sound.ledger i r' before).forget (.refl r') (effect.aside apart)
  case unknown =>
    intro i new entry member
    rw [set, List.length_set] at new
    rw [grown] at member
    rcases mem_grown.mp member with before | rfl
    · exact sound.unknown i new entry before
    · exact effect.aside (by omega)
  case counted =>
    intro i r' found'
    rw [counted]
    rw [set] at found'
    rcases getElem?_set_cases found found' with ⟨rfl, rfl⟩ | ⟨apart, before⟩
    · have bound := sound.counted i r found
      have noted := effect.noted_le
      omega
    · exact Nat.le_trans (sound.counted i r' before) (Nat.le_add_right _ _)
  case dropped =>
    intro i r' found' older
    rw [set] at found' older
    rw [List.length_set] at older
    rcases getElem?_set_cases found found' with ⟨rfl, rfl⟩ | ⟨apart, before⟩
    · obtain ⟨stopped, free⟩ := sound.dropped i r found older
      refine ⟨effect.stopped stopped, effect.noting ?_ free⟩
      -- A dropped handle notes nothing.
      rintro edit rfl
      have last := mine (Reconciler.move?_noted moved)
      omega
    · exact sound.dropped i r' before older
  case shut =>
    intro i r' found'
    rw [set] at found'
    rcases getElem?_set_cases found found' with ⟨rfl, rfl⟩ | ⟨apart, before⟩
    · exact (Reconciler.move?_conduct moved).shut (sound.shut i r found)
    · exact sound.shut i r' before
  case owed =>
    intro i r' found' alive
    rw [set] at found'
    rcases getElem?_set_cases found found' with ⟨rfl, rfl⟩ | ⟨apart, before⟩
    · rw [grown]
      have before : r.phase ≠ .killed := fun dead => alive (effect.killed_stays dead)
      exact (sound.owed i r found before).move (sound.ledger i r found) sound.tracked.service
        effect alive
    · exact others i r' apart before alive

theorem change [DecidableEq U] {limits : Limits} {s after : System U A} (sound : Sound s)
    (change : s.Change limits after) (few : after.edits < UInt64.size) : Sound after := by
  cases change with
  | outside opens adds plain => exact sound.aside rfl rfl opens plain.isAside
  | asked => exact sound.aside rfl rfl (.refl _) (fun _ => trivial)
  | request found effect => exact sound.aside rfl rfl effect.opensNone effect.isAside
  | spawned dropped => exact sound.spawned rfl rfl rfl dropped
  | moved found mine moved => exact sound.moved rfl rfl rfl found mine moved few

end Sound

theorem Reaches.sound [DecidableEq U] {limits : Limits} {s : System U A}
    (reaches : Reaches limits Act.IsInternal {} s) (few : s.edits < UInt64.size) : Sound s :=
  reaches.invariant few .start fun _ _ sound change few => sound.change change few

namespace Reconciler

/-- Some party still owes the completion of this cycle: a command in the queue,
the pending edit, the parse in flight, the worker with the result of that parse
in hand, or a call that has begun to note an edit and has not returned. -/
inductive Owes (r : Reconciler U A) (unit : U) (generation : Generation) : Prop where
  | queued {edit : Edit U} : .edit edit ∈ r.commands → edit.IsOf unit generation → Owes r unit generation
  | pending {pending : Pending U} :
      r.pending = some pending → pending.edit.IsOf unit generation → Owes r unit generation
  | inflight {inflight : Inflight U} :
      r.inflight = some inflight → inflight.edit.IsOf unit generation → Owes r unit generation
  | judging {taken : Taken U A} :
      r.taken = some taken → taken.edit.IsOf unit generation → Owes r unit generation
  | noting {edit : Edit U} :
      r.noting = some edit → edit.IsOf unit generation → Owes r unit generation

theorem Owes.of_duty {r : Reconciler U A} {unit : U} {generation : Generation} {edit : Edit U}
    (duty : edit ∈ r.duties) (cycle : edit.IsOf unit generation) : r.Owes unit generation := by
  simp only [duties, atWork, waiting, List.mem_append, List.mem_map, Option.mem_toList,
    List.mem_filterMap] at duty
  rcases duty with (⟨taken, held, rfl⟩ | ⟨inflight, flies, rfl⟩) |
    ((⟨pending, awaits, rfl⟩ | ⟨command, queued, asked⟩) | noting)
  · exact .judging held cycle
  · exact .inflight flies cycle
  · exact .pending awaits cycle
  · cases command with
    | edit edit =>
      cases asked
      exact .queued queued cycle
    | flush => cases asked
  · exact .noting noting cycle

end Reconciler

theorem Sound.owes {s : System U A} {r : Reconciler U A} (sound : Sound s)
    (alone : s.reconcilers = [r]) (alive : r.phase ≠ .killed) {unit : U}
    (busy : s.provider.cycles.running = some unit) : r.Owes unit s.provider.generation := by
  obtain ⟨k, edit, noted, cycle⟩ := sound.tracked.opened unit busy
  -- Whoever noted an edit is there, so it is the one reconciler.
  have found : s.reconcilers[k]? = some r := by
    rcases Nat.eq_zero_or_pos k with rfl | later
    · simp [alone]
    · exact absurd rfl (sound.unknown k (by rw [alone]; exact later) _ noted)
  have last := sound.owed k r found alive unit edit busy noted cycle
  exact .of_duty (List.mem_of_getLast? last) ⟨rfl, rfl⟩

/-- In every state that one reconciler, whose runtime lives, can reach with its
provider, some party owes the completion of the open cycle. So no cycle is open
once nothing is queued, pending or in flight and no edit is being noted, and
none once the worker has closed. -/
theorem open_cycle_owed [DecidableEq U] {limits : Limits} {s : System U A} {r : Reconciler U A}
    (reaches : Reaches limits Act.IsInternal {} s) (few : s.edits < UInt64.size)
    (alone : s.reconcilers = [r]) (alive : r.phase ≠ .killed) :
    (∀ unit, s.provider.cycles.running = some unit → r.Owes unit s.provider.generation) ∧
      (r.noting = none → r.commands = [] → r.pending = none → r.inflight = none → r.taken = none →
        s.provider.cycles.running = none) ∧
      (r.noting = none → r.phase = .closed → s.provider.cycles.running = none) := by
  have sound := reaches.sound few
  have owes : ∀ unit, s.provider.cycles.running = some unit → r.Owes unit s.provider.generation :=
    fun unit busy => sound.owes alone alive busy
  have idle : r.noting = none → r.commands = [] → r.pending = none → r.inflight = none →
      r.taken = none → s.provider.cycles.running = none := by
    intro free commands pending inflight taken
    apply Option.eq_none_iff_forall_ne_some.mpr
    intro unit busy
    cases owes unit busy with
    | queued member => simp [commands] at member
    | pending held => simp [pending] at held
    | inflight held => simp [inflight] at held
    | judging held => simp [taken] at held
    | noting held => simp [free] at held
  refine ⟨owes, idle, ?_⟩
  -- A worker that closed has given up everything it held.
  intro free closed
  have shut := sound.shut 0 r (by simp [alone])
  exact idle free (shut.commands closed) (shut.pending closed) (shut.inflight closed)
    (shut.taken (by simp [closed]))

def parsingRun : List (Act Nat Nat) :=
  [.spawn { debounceMs := 0 }, .reconciler 0 (.note 7), .reconciler 0 .send,
    .reconciler 0 .turn, .reconciler 0 (.note 7), .reconciler 0 .send, .reconciler 0 .turn,
    .reconciler 0 .turn]

theorem open_cycle_owed_parsing :
    ∃ (s : System Nat Nat) (r : Reconciler Nat Nat),
      System.run? ⟨{}, 1000⟩ {} parsingRun = some s ∧ s.reconcilers = [r] ∧
        s.provider.cycles.running = some 7 ∧ r.Owes 7 s.provider.generation := by
  have internal : ∀ act ∈ parsingRun, act.IsInternal := by simp [parsingRun, Act.IsInternal]
  have ran : System.run? ⟨{}, 1000⟩ {} parsingRun =
      some ((System.run? ⟨{}, 1000⟩ {} parsingRun).get rfl) := rfl
  have reaches : Reaches ⟨{}, 1000⟩ Act.IsInternal {} _ := Reaches.refl.of_run? internal ran
  refine ⟨_, _, ran, rfl, rfl, ?_⟩
  exact (open_cycle_owed reaches (by decide) rfl (by decide)).1 7 rfl

end FreshTree
