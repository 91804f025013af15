import NodeCqrs.Lib.Turns
import NodeCqrs.Proofs.LockUse

/-!
# The order of a lock's calls

Those that await a lock and then those that were woken for it are in the order of the calls, and a
call that is granted the lock goes on only after all that were woken have asked for it again
(`Queued.lease`). So the calls have their turns in order (`Inv.turns`), unless a new one comes when
the lock has been released and those woken have not asked for it yet (`handled_inOrder`).
-/

namespace NodeCqrs

namespace Microtasks

open CommandHandlers (Sys aggregateId Effect)

variable {I V σ : Type} [DecidableEq I] [Truthy I] [Truthy V] {H : CommandHandlers I V σ}
  {s s' : Sys I V σ} {c : ℕ}

/-! ## Who waits for a lock -/

variable (H)

/-- The call is on the lock of the name. -/
def isOn (u : Microtasks I V σ) (h : ℕ) (name : String) (c : ℕ) : Bool :=
  u.executed[c]?.any fun x => x.1 = h && lockName H x.2 = some name

/-- The call has been granted the lock. -/
def Leased (s : Sys I V σ) (h : ℕ) (name : String) (c : ℕ) : Prop :=
  ∃ awaits, (awaits = none ∨ awaits = some .acquired) ∧ lockUse H s c = some ⟨h, name, awaits⟩

/-- The call awaits its lock. -/
def Awaits (s : Sys I V σ) (c : ℕ) : Prop :=
  ∃ h name d, lockUse H s c = some ⟨h, name, some (.blockingLock d)⟩
    ∧ (s.lock h).namedLocks.lookup name = some d

/-- The lock that the call awaits has been released. -/
def Woken (s : Sys I V σ) (c : ℕ) : Prop :=
  ∃ h name d, lockUse H s c = some ⟨h, name, some (.blockingLock d)⟩ ∧ d ∈ (s.lock h).resolved

def Granted (s : Sys I V σ) (c : ℕ) : Prop :=
  ∃ h name, lockUse H s c = some ⟨h, name, some .acquired⟩

/-- The calls that are to ask for their locks again. -/
def woken (microtasks : List Microtask) : List ℕ :=
  microtasks.filterMap fun
    | .acquire c => some c
    | _ => none

/-- Those that await the lock, before those woken that have not asked for it again. -/
def waitingOn (u : Microtasks I V σ) (h : ℕ) (name : String) : List ℕ :=
  u.awaiting.filter (isOn H u h name) ++ (woken u.microtasks).filter (isOn H u h name)

/-- The calls whose commands were handled with the lock. -/
def handledOn (u : Microtasks I V σ) (h : ℕ) (name : String) : List ℕ :=
  u.handled.filter (isOn H u h name)

/-- A call granted a lock goes on once, and after those woken with it have asked for it again. -/
def Follows (u : Microtasks I V σ) (m m' : Microtask) : Prop :=
  ∀ c, m = .lease c → m' ≠ .lease c ∧
    ∀ c', m' = .acquire c' → ∀ h name, isOn H u h name c → ¬ isOn H u h name c'

structure Queued (u : Microtasks I V σ) : Prop where
  shape : CommandHandlers.Shape H u.sys
  named : ∀ h, (u.sys.lock h).Named
  use : ∀ c x, lockUse H u.sys c = some x → x.name ≠ "" ∧ isOn H u x.handler x.name c
  awaiting : ∀ c ∈ u.awaiting, Awaits H u.sys c
  acquire : ∀ c ∈ woken u.microtasks, Woken H u.sys c
  granted : ∀ c, .lease c ∈ u.microtasks → Granted H u.sys c
  order : u.microtasks.Pairwise (Follows H u)
  lease : ∀ c ∈ woken u.microtasks, ∀ h name, isOn H u h name c →
    ∀ c', Leased H u.sys h name c' → lockUse H u.sys c' = some ⟨h, name, some .acquired⟩

/-- The calls on each lock go through it as they were made. -/
structure Inv (u : Microtasks I V σ) : Prop where
  queued : Queued H u
  handled_lt : ∀ c ∈ u.handled, c < u.executed.length
  turns : ∀ h name,
    Turns (waitingOn H u h name) (Leased H u.sys h name) (handledOn H u h name) u.executed.length

variable {H}

section lemmas

variable {u : Microtasks I V σ} {h h' : ℕ} {name name' : String}

omit [DecidableEq I] [Truthy V] in
/-- A call is on one lock. -/
theorem isOn_unique (hc : isOn H u h name c) (hc' : isOn H u h' name' c) :
    h = h' ∧ name = name' := by
  rcases hu : u.executed[c]? with _ | x
  · simp [isOn, hu] at hc
  · simp only [isOn, hu, Option.any_some, Bool.and_eq_true, decide_eq_true_eq] at hc hc'
    exact ⟨hc.1.symm.trans hc'.1, Option.some.inj (hc.2.symm.trans hc'.2)⟩

omit [DecidableEq I] [Truthy V] in
theorem lt_of_isOn (hc : isOn H u h name c) : c < u.executed.length := by
  by_contra hlt
  simp [isOn, List.getElem?_eq_none (Nat.le_of_not_lt hlt)] at hc

theorem mem_woken {microtasks : List Microtask} : c ∈ woken microtasks ↔ .acquire c ∈ microtasks := by
  simp only [woken, List.mem_filterMap]
  constructor
  · rintro ⟨m, hm, hc⟩
    cases m with
    | acquire c' =>
      obtain rfl : c' = c := by simpa using hc
      exact hm
    | lease | other => cases hc
  · exact fun hm => ⟨_, hm, rfl⟩

@[simp] theorem woken_append (l l' : List Microtask) : woken (l ++ l') = woken l ++ woken l' :=
  List.filterMap_append ..

@[simp] theorem woken_lease (c : ℕ) : woken [.lease c] = [] := rfl

@[simp] theorem woken_other : woken [.other] = [] := rfl

@[simp] theorem woken_map_acquire (l : List ℕ) : woken (l.map .acquire) = l := by
  rw [woken, List.filterMap_map]
  exact List.filterMap_some

omit [DecidableEq I] [Truthy V] in
/-- A lease is a lock held. -/
theorem Queued.lookup_ne_none (hq : Queued H u) (hl : Leased H u.sys h name c) :
    (u.sys.lock h).namedLocks.lookup name ≠ none := by
  obtain ⟨awaits, ha, hu⟩ := hl
  have hname := (hq.use c _ hu).1
  obtain ⟨call, hc, hu⟩ := Option.bind_eq_some_iff.1 hu
  obtain ⟨id, hid, hu⟩ := Option.map_eq_some_iff.1 hu
  obtain ⟨rfl, rfl, hp⟩ := LockUse.mk.inj hu
  exact (Lock.holds_iff_lookup hname).1
    ((hq.shape.calls c call hc).lock id hid ((Phase.leased_iff _).2 (hp ▸ ha)))

omit [DecidableEq I] [Truthy V] in
/-- Who awaits a lock or has been woken is not granted it. -/
theorem Queued.not_blocked (hq : Queued H u) (hc : ∀ h name d,
    lockUse H u.sys c ≠ some ⟨h, name, some (.blockingLock d)⟩) :
    c ∉ u.awaiting ∧ c ∉ woken u.microtasks := by
  constructor
  · intro hmem
    obtain ⟨h, name, d, hu, -⟩ := hq.awaiting c hmem
    exact hc h name d hu
  · intro hmem
    obtain ⟨h, name, d, hu, -⟩ := hq.acquire c hmem
    exact hc h name d hu

end lemmas

/-! ## What keeps the queues -/

section queued

variable {u : Microtasks I V σ} {h : ℕ} {name : String}

omit [DecidableEq I] [Truthy V] in
theorem Awaits.congr (ha : Awaits H s c) (hu : lockUse H s' c = lockUse H s c)
    (hl : ∀ h, s'.lock h = s.lock h) : Awaits H s' c := by
  obtain ⟨h, name, d, hc, hd⟩ := ha
  exact ⟨h, name, d, hu.trans hc, hl h ▸ hd⟩

omit [DecidableEq I] [Truthy V] in
theorem Woken.mono (hw : Woken H s c) (hu : lockUse H s' c = lockUse H s c)
    (hr : ∀ h d, d ∈ (s.lock h).resolved → d ∈ (s'.lock h).resolved) : Woken H s' c := by
  obtain ⟨h, name, d, hc, hd⟩ := hw
  exact ⟨h, name, d, hu.trans hc, hr h d hd⟩

omit [DecidableEq I] [Truthy V] in
theorem Granted.congr (hg : Granted H s c) (hu : lockUse H s' c = lockUse H s c) :
    Granted H s' c := by
  obtain ⟨h, name, hc⟩ := hg
  exact ⟨h, name, hu.trans hc⟩

omit [DecidableEq I] [Truthy V] in
theorem Granted.leased (hg : Granted H s c) : ∃ h name, Leased H s h name c := by
  obtain ⟨h, name, hc⟩ := hg
  exact ⟨h, name, _, .inr rfl, hc⟩

omit [DecidableEq I] [Truthy V] in
/-- Dropping microtasks, or letting other code run, keeps it. -/
theorem Queued.of_sublist (hq : Queued H u) {u' : Microtasks I V σ} (hsys : u'.sys = u.sys)
    (ha : u'.awaiting = u.awaiting) (hm : u'.microtasks.Sublist u.microtasks)
    (he : u'.executed = u.executed) : Queued H u' := by
  have hon : ∀ h name, isOn H u' h name = isOn H u h name := fun h name =>
    funext fun c => by rw [isOn, isOn, he]
  have hw : (woken u'.microtasks).Sublist (woken u.microtasks) := hm.filterMap _
  constructor
  · exact hsys ▸ hq.shape
  · exact hsys ▸ hq.named
  · rw [hsys]
    simp only [hon]
    exact hq.use
  · rw [hsys, ha]
    exact hq.awaiting
  · rw [hsys]
    exact fun c hc => hq.acquire c (hw.subset hc)
  · rw [hsys]
    exact fun c hc => hq.granted c (hm.subset hc)
  · have hf : Follows H u' = Follows H u := by
      funext m m'
      simp only [Follows, hon]
    rw [hf]
    exact hq.order.sublist hm
  · rw [hsys]
    simp only [hon]
    exact fun c hc => hq.lease c (hw.subset hc)

omit [DecidableEq I] [Truthy V] in
/-- Other code may be queued. -/
theorem Queued.push (hq : Queued H u) :
    Queued H { u with microtasks := u.microtasks ++ [.other] } := by
  refine ⟨hq.shape, hq.named, hq.use, hq.awaiting, ?_, fun c hc => hq.granted c (by simpa using hc),
    ?_, ?_⟩
  · simp only [woken_append, woken_other, List.append_nil]
    exact hq.acquire
  · refine List.pairwise_append.2 ⟨hq.order, List.pairwise_singleton _ _, fun m _ m' hm' => ?_⟩
    obtain rfl := List.mem_singleton.1 hm'
    exact fun c _ => ⟨by simp, fun c' h => by cases h⟩
  · simp only [woken_append, woken_other, List.append_nil]
    exact hq.lease

omit [DecidableEq I] [Truthy V] in
/-- A call that was made is on the lock it was on. -/
theorem isOn_executed (x : ℕ × Command I V) (hc : c < u.executed.length) :
    isOn H { u with executed := u.executed ++ [x] } h name c = isOn H u h name c := by
  simp [isOn, List.getElem?_append_left hc]

omit [DecidableEq I] [Truthy V] in
theorem Queued.lt_of_use (hq : Queued H u) {x : LockUse} (hu : lockUse H u.sys c = some x) :
    c < u.executed.length := lt_of_isOn (hq.use c x hu).2

omit [DecidableEq I] [Truthy V] in
theorem Queued.executed (hq : Queued H u) (x : ℕ × Command I V) :
    Queued H { u with executed := u.executed ++ [x] } := by
  have hwoken : ∀ c ∈ woken u.microtasks, c < u.executed.length := fun c hc => by
    obtain ⟨h, name, d, hu, -⟩ := hq.acquire c hc
    exact hq.lt_of_use hu
  refine ⟨hq.shape, hq.named, fun c y hu => ⟨(hq.use c y hu).1, ?_⟩, hq.awaiting, hq.acquire,
    hq.granted, ?_, fun c hc h name hon => ?_⟩
  · rw [isOn_executed x (hq.lt_of_use hu)]
    exact (hq.use c y hu).2
  · refine hq.order.imp_of_mem fun {m m'} hm hm' hp c₁ h₁ => ?_
    subst h₁
    refine ⟨(hp c₁ rfl).1, fun c₂ h₂ h' name' => ?_⟩
    subst h₂
    obtain ⟨_, _, hu⟩ := hq.granted c₁ hm
    rw [isOn_executed x (hq.lt_of_use hu), isOn_executed x (hwoken c₂ (mem_woken.2 hm'))]
    exact (hp c₁ rfl).2 c₂ rfl h' name'
  · rw [isOn_executed x (hwoken c hc)] at hon
    exact hq.lease c hc h name hon

omit [DecidableEq I] [Truthy V] in
theorem Queued.same (hq : Queued H u) (hS : Same H u.sys s')
    (hshape : CommandHandlers.Shape H s') : Queued H { u with sys := s' } := by
  refine ⟨hshape, fun h => hS.lock h ▸ hq.named h, fun c x hu => hq.use c x (hS.uses c ▸ hu),
    fun c hc => (hq.awaiting c hc).congr (hS.uses c) hS.lock, fun c hc => ?_,
    fun c hc => (hq.granted c hc).congr (hS.uses c), hq.order, fun c hc h name hon c' hl => ?_⟩
  · exact (hq.acquire c hc).mono (hS.uses c) fun h d hd => hS.lock h ▸ hd
  · obtain ⟨awaits, ha, hu⟩ := hl
    exact (hS.uses c').trans (hq.lease c hc h name hon c' ⟨awaits, ha, hS.uses c' ▸ hu⟩)

omit [DecidableEq I] [Truthy V] in
/-- At the end of a call those that await its lock are woken. -/
theorem Queued.finishes (hq : Queued H u) (hF : Finishes H u.sys s' c h name)
    (hshape : CommandHandlers.Shape H s')
    (hone : ∀ c', Leased H u.sys h name c' → c' = c) : Queued H { u with
      sys := s'
      microtasks := u.microtasks ++ (u.awaiting.filter (isOn H u h name)).map .acquire
      awaiting := u.awaiting.filter (!isOn H u h name ·) } := by
  have hname := (hq.use c _ hF.use).1
  have hc : ∀ c' h d awaits, lockUse H u.sys c' = some ⟨h, d, some awaits⟩ → c' ≠ c := by
    rintro c' h' name' awaits hu rfl
    rw [hF.use] at hu
    cases hu
  have huse : ∀ c' ≠ c, lockUse H s' c' = lockUse H u.sys c' := fun c' hc => by
    rw [hF.uses, if_neg hc]
  have hleased : ∀ h name c', Leased H s' h name c' → Leased H u.sys h name c' ∧ c' ≠ c := by
    rintro h name c' ⟨awaits, ha, hu⟩
    rw [hF.uses] at hu
    split_ifs at hu with hcc
    exact ⟨⟨awaits, ha, hu⟩, hcc⟩
  have hresolved : ∀ h' d, d ∈ (u.sys.lock h').resolved → d ∈ (s'.lock h').resolved := by
    intro h' d hd
    rw [hF.lock]
    split_ifs with hh
    · exact (Lock.mem_resolved_release _ hname d).2 (.inr (hh ▸ hd))
    · exact hd
  refine ⟨hshape, fun h' => ?_, fun c' x hx => ?_, fun c' hmem => ?_, fun c' hmem => ?_,
    fun c' hmem => ?_, ?_, fun c₁ hmem h' name' hon c' hl => ?_⟩
  · show (s'.lock h').Named
    rw [hF.lock]
    split_ifs
    · exact (hq.named h).release hname
    · exact hq.named h'
  · have hx : lockUse H s' c' = some x := hx
    rw [hF.uses] at hx
    split_ifs at hx
    exact hq.use c' x hx
  · obtain ⟨hmem, hoff⟩ := List.mem_filter.1 hmem
    obtain ⟨h', name', d, hu, hd⟩ := hq.awaiting c' hmem
    refine ⟨h', name', d, (huse c' (hc c' _ _ _ hu)).trans hu, ?_⟩
    show (s'.lock h').namedLocks.lookup name' = some d
    rw [hF.lock]
    split_ifs with hh
    · subst hh
      rw [Lock.lookup_release _ hname, if_neg, hd]
      rintro rfl
      simp [(hq.use c' _ hu).2] at hoff
    · exact hd
  · simp only [woken_append, woken_map_acquire] at hmem
    rcases List.mem_append.1 hmem with hmem | hmem
    · obtain ⟨_, _, _, hu, -⟩ := hq.acquire c' hmem
      exact (hq.acquire c' hmem).mono (huse c' (hc c' _ _ _ hu)) hresolved
    · obtain ⟨hmem, hon⟩ := List.mem_filter.1 hmem
      obtain ⟨h', name', d, hu, hd⟩ := hq.awaiting c' hmem
      obtain ⟨rfl, rfl⟩ := isOn_unique hon (hq.use c' _ hu).2
      refine ⟨h, name, d, (huse c' (hc c' _ _ _ hu)).trans hu, ?_⟩
      show d ∈ (s'.lock h).resolved
      rw [hF.lock, if_pos rfl]
      exact (Lock.mem_resolved_release _ hname d).2 (.inl hd)
  · obtain ⟨_, _, hu⟩ := hq.granted c' (by simpa using hmem)
    exact ⟨_, _, (huse c' (hc c' _ _ _ hu)).trans hu⟩
  · refine List.pairwise_append.2 ⟨hq.order, ?_, ?_⟩
    · refine List.pairwise_map.2 (List.pairwise_of_forall fun x y c₁ h₁ => ?_)
      cases h₁
    · rintro m hm m' hm' c₁ rfl
      obtain ⟨c₂, ⟨hmem, hc₂⟩, rfl⟩ :
          ∃ c₂, (c₂ ∈ u.awaiting ∧ isOn H u h name c₂) ∧ .acquire c₂ = m' := by simpa using hm'
      refine ⟨by simp, fun c₃ h₃ h' name' hon₁ hon₂ => ?_⟩
      obtain rfl := Microtask.acquire.inj h₃
      obtain ⟨rfl, rfl⟩ := isOn_unique hc₂ hon₂
      obtain ⟨h₁, name₁, hu⟩ := hq.granted c₁ hm
      obtain ⟨rfl, rfl⟩ := isOn_unique hon₁ (hq.use c₁ _ hu).2
      exact hc c₁ _ _ _ hu (hone c₁ ⟨_, .inr rfl, hu⟩)
  · obtain ⟨hl, hcc⟩ := hleased h' name' c' hl
    simp only [woken_append, woken_map_acquire] at hmem
    rcases List.mem_append.1 hmem with hmem | hmem
    · exact (huse c' hcc).trans (hq.lease c₁ hmem h' name' hon c' hl)
    · obtain ⟨rfl, rfl⟩ := isOn_unique (List.mem_filter.1 hmem).2 hon
      exact absurd (hone c' hl) hcc

omit [DecidableEq I] [Truthy V] in
/-- No one awaits a lock that is free. -/
theorem Queued.awaiting_free (hq : Queued H u)
    (hd : (u.sys.lock h).namedLocks.lookup name = none) :
    u.awaiting.filter (isOn H u h name) = [] := by
  refine List.filter_eq_nil_iff.2 fun c hmem hon => ?_
  obtain ⟨h', name', d, hu, hd'⟩ := hq.awaiting c hmem
  obtain ⟨rfl, rfl⟩ := isOn_unique hon (hq.use c _ hu).2
  rw [hd] at hd'
  cases hd'

omit [DecidableEq I] [Truthy V] in
/-- A call that finds its lock taken awaits it. -/
theorem Queued.joins {d : ℕ} (hq : Queued H u) (hname : name ≠ "") (hon : isOn H u h name c)
    (huse : ∀ c', lockUse H s' c' =
      if c' = c then some ⟨h, name, some (.blockingLock d)⟩ else lockUse H u.sys c')
    (hlock : ∀ h', s'.lock h' = u.sys.lock h')
    (hd : (u.sys.lock h).namedLocks.lookup name = some d)
    (hc : c ∉ u.awaiting ∧ c ∉ woken u.microtasks ∧ .lease c ∉ u.microtasks)
    (hshape : CommandHandlers.Shape H s') :
    Queued H { u with sys := s', awaiting := u.awaiting ++ [c] } := by
  have hother : ∀ c' ≠ c, lockUse H s' c' = lockUse H u.sys c' := fun c' hcc => by
    rw [huse, if_neg hcc]
  have hself : lockUse H s' c = some ⟨h, name, some (.blockingLock d)⟩ := by rw [huse, if_pos rfl]
  refine ⟨hshape, fun h' => ?_, fun c' x hx => ?_, fun c' hmem => ?_, fun c' hmem => ?_,
    fun c' hmem => ?_, hq.order, fun c₁ hmem h' name' hon₁ c' hl => ?_⟩
  · exact hlock h' ▸ hq.named h'
  · by_cases hcc : c' = c
    · subst hcc
      obtain rfl := Option.some.inj (hself.symm.trans hx)
      exact ⟨hname, hon⟩
    · exact hq.use c' x ((hother c' hcc).symm.trans hx)
  · rcases List.mem_append.1 hmem with hmem | hmem
    · exact (hq.awaiting c' hmem).congr (hother c' fun h => hc.1 (h ▸ hmem)) hlock
    · obtain rfl := List.mem_singleton.1 hmem
      exact ⟨h, name, d, hself, hlock h ▸ hd⟩
  · exact (hq.acquire c' hmem).mono (hother c' fun h => hc.2.1 (h ▸ hmem))
      fun h d hd => hlock h ▸ hd
  · exact (hq.granted c' hmem).congr (hother c' fun h => hc.2.2 (h ▸ hmem))
  · obtain ⟨awaits, ha, hu⟩ := hl
    have hcc : c' ≠ c := by
      rintro rfl
      obtain ⟨-, -, rfl⟩ := LockUse.mk.inj (Option.some.inj (hself.symm.trans hu))
      simp at ha
    rw [show lockUse H s' c' = _ from hother c' hcc] at hu ⊢
    exact hq.lease c₁ hmem h' name' hon₁ c' ⟨awaits, ha, hu⟩

omit [DecidableEq I] [Truthy V] in
/-- A call that finds its lock free takes it. -/
theorem Queued.takes (hq : Queued H u) (hname : name ≠ "") (hon : isOn H u h name c)
    (huse : ∀ c', lockUse H s' c' =
      if c' = c then some ⟨h, name, some .acquired⟩ else lockUse H u.sys c')
    (hlock : ∀ h', s'.lock h' = if h' = h then (u.sys.lock h).take name else u.sys.lock h')
    (hd : (u.sys.lock h).namedLocks.lookup name = none)
    (hc : c ∉ u.awaiting ∧ c ∉ woken u.microtasks ∧ .lease c ∉ u.microtasks)
    (hshape : CommandHandlers.Shape H s') :
    Queued H { u with sys := s', microtasks := u.microtasks ++ [.lease c] } := by
  have hother : ∀ c' ≠ c, lockUse H s' c' = lockUse H u.sys c' := fun c' hcc => by
    rw [huse, if_neg hcc]
  have hself : lockUse H s' c = some ⟨h, name, some .acquired⟩ := by rw [huse, if_pos rfl]
  have hresolved : ∀ h' d, d ∈ (u.sys.lock h').resolved → d ∈ (s'.lock h').resolved := by
    intro h' d hd
    rw [hlock]
    split_ifs with hh
    · simpa [Lock.take, hname] using hh ▸ hd
    · exact hd
  refine ⟨hshape, fun h' => ?_, fun c' x hx => ?_, fun c' hmem => ?_, fun c' hmem => ?_,
    fun c' hmem => ?_, ?_, fun c₁ hmem h' name' hon₁ c' hl => ?_⟩
  · show (s'.lock h').Named
    rw [hlock]
    split_ifs
    · exact (hq.named h).take hname
    · exact hq.named h'
  · by_cases hcc : c' = c
    · subst hcc
      obtain rfl := Option.some.inj (hself.symm.trans hx)
      exact ⟨hname, hon⟩
    · exact hq.use c' x ((hother c' hcc).symm.trans hx)
  · obtain ⟨h', name', d, hu, hd'⟩ := hq.awaiting c' hmem
    refine ⟨h', name', d, (hother c' fun h => hc.1 (h ▸ hmem)).trans hu, ?_⟩
    show (s'.lock h').namedLocks.lookup name' = some d
    rw [hlock]
    split_ifs with hh
    · subst hh
      rw [Lock.lookup_take _ hname, if_neg, hd']
      rintro rfl
      rw [hd] at hd'
      cases hd'
    · exact hd'
  · simp only [woken_append, woken_lease, List.append_nil] at hmem
    exact (hq.acquire c' hmem).mono (hother c' fun h => hc.2.1 (h ▸ hmem)) hresolved
  · rcases List.mem_append.1 hmem with hmem | hmem
    · exact (hq.granted c' hmem).congr (hother c' fun h => hc.2.2 (h ▸ hmem))
    · obtain rfl : c' = c := by simpa using hmem
      exact ⟨h, name, hself⟩
  · refine List.pairwise_append.2 ⟨hq.order, List.pairwise_singleton _ _, fun m hm m' hm' => ?_⟩
    obtain rfl := List.mem_singleton.1 hm'
    rintro c₁ rfl
    refine ⟨fun h => hc.2.2 ?_, fun c' h => by cases h⟩
    obtain rfl := Microtask.lease.inj h
    exact hm
  · simp only [woken_append, woken_lease, List.append_nil] at hmem
    obtain ⟨awaits, ha, hu⟩ := hl
    by_cases hcc : c' = c
    · subst hcc
      obtain ⟨rfl, rfl, -⟩ := LockUse.mk.inj (Option.some.inj (hself.symm.trans hu))
      exact hself
    · rw [show lockUse H s' c' = _ from hother c' hcc] at hu ⊢
      exact hq.lease c₁ hmem h' name' hon₁ c' ⟨awaits, ha, hu⟩

omit [DecidableEq I] [Truthy V] in
/-- A call whose `acquire` has returned goes on. -/
theorem Queued.leases (hq : Queued H u) (hu : lockUse H u.sys c = some ⟨h, name, some .acquired⟩)
    (huse : ∀ c', lockUse H s' c' =
      if c' = c then some ⟨h, name, none⟩ else lockUse H u.sys c')
    (hlock : ∀ h', s'.lock h' = u.sys.lock h') (hc : .lease c ∉ u.microtasks)
    (hwoken : ∀ c' ∈ woken u.microtasks, ¬ isOn H u h name c')
    (hshape : CommandHandlers.Shape H s') : Queued H { u with sys := s' } := by
  have hother : ∀ c' ≠ c, lockUse H s' c' = lockUse H u.sys c' := fun c' hcc => by
    rw [huse, if_neg hcc]
  have hself : lockUse H s' c = some ⟨h, name, none⟩ := by rw [huse, if_pos rfl]
  obtain ⟨hawait, hacquire⟩ := hq.not_blocked (c := c) fun _ _ _ h => by
    rw [hu] at h
    cases h
  refine ⟨hshape, fun h' => ?_, fun c' x hx => ?_, fun c' hmem => ?_, fun c' hmem => ?_,
    fun c' hmem => ?_, hq.order, fun c₁ hmem h' name' hon₁ c' hl => ?_⟩
  · exact hlock h' ▸ hq.named h'
  · by_cases hcc : c' = c
    · subst hcc
      obtain rfl := Option.some.inj (hself.symm.trans hx)
      exact hq.use c' ⟨h, name, some .acquired⟩ hu
    · exact hq.use c' x ((hother c' hcc).symm.trans hx)
  · exact (hq.awaiting c' hmem).congr (hother c' fun h => hawait (h ▸ hmem)) hlock
  · exact (hq.acquire c' hmem).mono (hother c' fun h => hacquire (h ▸ hmem))
      fun h d hd => hlock h ▸ hd
  · exact (hq.granted c' hmem).congr (hother c' fun h => hc (h ▸ hmem))
  · obtain ⟨awaits, ha, hu'⟩ := hl
    by_cases hcc : c' = c
    · subst hcc
      obtain ⟨rfl, rfl, -⟩ := LockUse.mk.inj (Option.some.inj (hself.symm.trans hu'))
      exact absurd hon₁ (hwoken c₁ hmem)
    · rw [show lockUse H s' c' = _ from hother c' hcc] at hu' ⊢
      exact hq.lease c₁ hmem h' name' hon₁ c' ⟨awaits, ha, hu'⟩

end queued

/-! ## What keeps the turns -/

section turns

variable {u : Microtasks I V σ} {h : ℕ} {name : String}

omit [DecidableEq I] [Truthy V] in
theorem Leased.of_use (hl : Leased H s' h name c)
    (hu : lockUse H s' c = lockUse H s c) : Leased H s h name c := by
  obtain ⟨awaits, ha, hc⟩ := hl
  exact ⟨awaits, ha, hu.symm.trans hc⟩

omit [DecidableEq I] [Truthy V] in
theorem Inv.of_sublist (hi : Inv H u) {u' : Microtasks I V σ} (hsys : u'.sys = u.sys)
    (ha : u'.awaiting = u.awaiting) (hm : u'.microtasks.Sublist u.microtasks)
    (he : u'.executed = u.executed) (hh : u'.handled = u.handled) : Inv H u' := by
  have hon : ∀ h name, isOn H u' h name = isOn H u h name := fun h name =>
    funext fun c => by rw [isOn, isOn, he]
  refine ⟨hi.queued.of_sublist hsys ha hm he, by rw [hh, he]; exact hi.handled_lt,
    fun h name => ?_⟩
  have hw : (waitingOn H u' h name).Sublist (waitingOn H u h name) := by
    rw [waitingOn, waitingOn, ha, hon]
    exact (List.Sublist.refl _).append ((hm.filterMap _).filter _)
  rw [hsys, handledOn, hh, hon, he]
  exact (hi.turns h name).mono hw (fun _ hl => hl) (Nat.le_refl _)

omit [DecidableEq I] [Truthy V] in
theorem Inv.push (hi : Inv H u) : Inv H { u with microtasks := u.microtasks ++ [.other] } := by
  refine ⟨hi.queued.push, hi.handled_lt, fun h name => ?_⟩
  have hw : waitingOn H { u with microtasks := u.microtasks ++ [.other] } h name
      = waitingOn H u h name := by
    simp only [waitingOn, woken_append, woken_other, List.append_nil]
    rfl
  rw [hw]
  exact hi.turns h name

omit [DecidableEq I] [Truthy V] in
theorem Inv.same (hi : Inv H u) (hS : Same H u.sys s') (hshape : CommandHandlers.Shape H s') :
    Inv H { u with sys := s' } := by
  refine ⟨hi.queued.same hS hshape, hi.handled_lt, fun h name => ?_⟩
  show Turns (waitingOn H u h name) (Leased H s' h name) (handledOn H u h name) u.executed.length
  exact (hi.turns h name).mono (List.Sublist.refl _) (fun c hl => hl.of_use (hS.uses c))
    (Nat.le_refl _)

omit [DecidableEq I] [Truthy V] in
theorem filter_isOn_executed (x : ℕ × Command I V) {l : List ℕ}
    (hl : ∀ c ∈ l, c < u.executed.length) :
    l.filter (isOn H { u with executed := u.executed ++ [x] } h name)
      = l.filter (isOn H u h name) :=
  List.filter_congr fun c hc => isOn_executed x (hl c hc)

omit [DecidableEq I] [Truthy V] in
/-- The calls under way are among those made. -/
theorem Queued.lt (hq : Queued H u) : (∀ c ∈ u.awaiting, c < u.executed.length)
    ∧ (∀ c ∈ woken u.microtasks, c < u.executed.length) := by
  constructor
  · intro c hc
    obtain ⟨_, _, _, hu, -⟩ := hq.awaiting c hc
    exact hq.lt_of_use hu
  · intro c hc
    obtain ⟨_, _, _, hu, -⟩ := hq.acquire c hc
    exact hq.lt_of_use hu

omit [DecidableEq I] [Truthy V] in
theorem waitingOn_executed (hq : Queued H u) (x : ℕ × Command I V) (h : ℕ) (name : String) :
    waitingOn H { u with executed := u.executed ++ [x] } h name = waitingOn H u h name := by
  obtain ⟨ha, hw⟩ := hq.lt
  rw [waitingOn, waitingOn, filter_isOn_executed x ha, filter_isOn_executed x hw]

omit [DecidableEq I] [Truthy V] in
theorem handledOn_executed (hi : Inv H u) (x : ℕ × Command I V) (h : ℕ) (name : String) :
    handledOn H { u with executed := u.executed ++ [x] } h name = handledOn H u h name :=
  filter_isOn_executed x hi.handled_lt

omit [DecidableEq I] [Truthy V] in
theorem Inv.executed (hi : Inv H u) (x : ℕ × Command I V) :
    Inv H { u with executed := u.executed ++ [x] } := by
  have hle : u.executed.length ≤ (u.executed ++ [x]).length := by simp
  refine ⟨hi.queued.executed x, fun c hc => Nat.lt_of_lt_of_le (hi.handled_lt c hc) hle,
    fun h name => ?_⟩
  rw [waitingOn_executed hi.queued, handledOn_executed hi]
  exact (hi.turns h name).mono (List.Sublist.refl _) (fun _ hl => hl) hle

omit [DecidableEq I] [Truthy V] in
/-- Those woken stay before those that come later. -/
theorem Inv.finishes (hi : Inv H u) (hF : Finishes H u.sys s' c h name)
    (hshape : CommandHandlers.Shape H s') : Inv H { u with
      sys := s'
      microtasks := u.microtasks ++ (u.awaiting.filter (isOn H u h name)).map .acquire
      awaiting := u.awaiting.filter (!isOn H u h name ·) } := by
  have hone : ∀ c', Leased H u.sys h name c' → c' = c := fun c' hl =>
    (hi.turns h name).turn_unique c' c hl ⟨none, .inl rfl, hF.use⟩
  have hnil : (woken u.microtasks).filter (isOn H u h name) = [] := by
    refine List.filter_eq_nil_iff.2 fun c' hmem hon => ?_
    have hl := hi.queued.lease c' hmem h name hon c ⟨none, .inl rfl, hF.use⟩
    rw [hF.use] at hl
    cases hl
  refine ⟨hi.queued.finishes hF hshape hone, hi.handled_lt, fun h' name' => ?_⟩
  have hw : (u.awaiting.filter (!isOn H u h name ·)).filter (isOn H u h' name')
      ++ (woken (u.microtasks ++ (u.awaiting.filter (isOn H u h name)).map .acquire)).filter
        (isOn H u h' name') = waitingOn H u h' name' := by
    rw [woken_append, woken_map_acquire, List.filter_append, waitingOn, List.filter_filter,
      List.filter_filter]
    by_cases hh : h' = h ∧ name' = name
    · obtain ⟨rfl, rfl⟩ := hh
      rw [hnil]
      simp
    · have hoff : ∀ c', isOn H u h' name' c' = true → isOn H u h name c' = false := by
        intro c' hon'
        by_contra hon
        exact hh (isOn_unique hon' (by simpa using hon))
      have h1 : u.awaiting.filter (fun c' => isOn H u h' name' c' && !isOn H u h name c')
          = u.awaiting.filter (isOn H u h' name') := by
        refine List.filter_congr fun c' _ => ?_
        cases hon : isOn H u h' name' c' <;> simp [hoff, hon]
      have h2 : u.awaiting.filter (fun c' => isOn H u h' name' c' && isOn H u h name c') = [] :=
        List.filter_eq_nil_iff.2 fun c' _ => by
          cases hon : isOn H u h' name' c' <;> simp [hoff, hon]
      rw [h1, h2, List.append_nil]
  have hturns : Turns (waitingOn H u h' name') (Leased H s' h' name') (handledOn H u h' name')
      u.executed.length := by
    refine (hi.turns h' name').mono (List.Sublist.refl _) (fun c' hl => ?_) (Nat.le_refl _)
    obtain ⟨awaits, ha, hu⟩ := hl
    rw [hF.uses] at hu
    split_ifs at hu
    exact ⟨awaits, ha, hu⟩
  rw [← hw] at hturns
  exact hturns

omit [DecidableEq I] [Truthy V] in
/-- Who awaits its lock has not been granted it. -/
theorem leased_of_joins {d : ℕ} (huse : ∀ c', lockUse H s' c' =
      if c' = c then some ⟨h, name, some (.blockingLock d)⟩ else lockUse H u.sys c')
    {h' c' : ℕ} {name' : String} (hl : Leased H s' h' name' c') : Leased H u.sys h' name' c' := by
  obtain ⟨awaits, ha, hu⟩ := hl
  rw [huse] at hu
  split_ifs at hu
  · obtain ⟨-, -, rfl⟩ := LockUse.mk.inj (Option.some.inj hu)
    simp at ha
  · exact ⟨awaits, ha, hu⟩

omit [DecidableEq I] [Truthy V] in
theorem leased_of_takes (huse : ∀ c', lockUse H s' c' =
      if c' = c then some ⟨h, name, some .acquired⟩ else lockUse H u.sys c')
    {h' c' : ℕ} {name' : String} (hl : Leased H s' h' name' c') :
    (c' = c ∧ h' = h ∧ name' = name) ∨ Leased H u.sys h' name' c' := by
  obtain ⟨awaits, ha, hu⟩ := hl
  rw [huse] at hu
  split_ifs at hu with hc
  · obtain ⟨rfl, rfl, -⟩ := LockUse.mk.inj (Option.some.inj hu)
    exact .inl ⟨hc, rfl, rfl⟩
  · exact .inr ⟨awaits, ha, hu⟩

omit [DecidableEq I] [Truthy V] in
theorem isOn_executed_self {cmd : Command I V} (hcmd : lockName H cmd = some name) :
    isOn H { u with executed := u.executed ++ [(h, cmd)] } h name u.executed.length := by
  simp [isOn, hcmd]

omit [DecidableEq I] [Truthy V] in
/-- A call that was not made is not under way. -/
theorem Queued.not_made (hq : Queued H u) {c : ℕ} (hc : u.executed.length ≤ c) :
    c ∉ u.awaiting ∧ c ∉ woken u.microtasks ∧ .lease c ∉ u.microtasks := by
  refine ⟨fun hmem => ?_, fun hmem => ?_, fun hmem => ?_⟩
  · exact Nat.not_lt.2 hc (hq.lt.1 c hmem)
  · exact Nat.not_lt.2 hc (hq.lt.2 c hmem)
  · obtain ⟨_, _, hu⟩ := hq.granted c hmem
    exact Nat.not_lt.2 hc (hq.lt_of_use hu)

omit [DecidableEq I] [Truthy V] in
/-- A new call that finds its lock taken comes last, if no one woken has yet to ask for it. -/
theorem Inv.joins {d : ℕ} {cmd : Command I V} (hi : Inv H u) (hname : name ≠ "")
    (hcmd : lockName H cmd = some name) (hc : c = u.executed.length)
    (hwoken : ∀ c' ∈ woken u.microtasks, ¬ isOn H u h name c')
    (huse : ∀ c', lockUse H s' c' =
      if c' = c then some ⟨h, name, some (.blockingLock d)⟩ else lockUse H u.sys c')
    (hlock : ∀ h', s'.lock h' = u.sys.lock h')
    (hd : (u.sys.lock h).namedLocks.lookup name = some d)
    (hshape : CommandHandlers.Shape H s') : Inv H { u with
      sys := s', executed := u.executed ++ [(h, cmd)], awaiting := u.awaiting ++ [c] } := by
  subst hc
  have hon := isOn_executed_self (u := u) (h := h) hcmd
  have hnew := hi.queued.not_made (Nat.le_refl _)
  refine ⟨(hi.queued.executed (h, cmd)).joins hname hon huse hlock hd hnew hshape,
    fun c hc => Nat.lt_of_lt_of_le (hi.handled_lt c hc) (by simp), fun h' name' => ?_⟩
  have hw : (u.awaiting ++ [u.executed.length]).filter
        (isOn H { u with executed := u.executed ++ [(h, cmd)] } h' name')
      ++ (woken u.microtasks).filter
        (isOn H { u with executed := u.executed ++ [(h, cmd)] } h' name')
      = waitingOn H u h' name' ++ if h' = h ∧ name' = name then [u.executed.length] else [] := by
    rw [List.filter_append, filter_isOn_executed _ hi.queued.lt.1,
      filter_isOn_executed _ hi.queued.lt.2, waitingOn]
    split_ifs with hh
    · obtain ⟨rfl, rfl⟩ := hh
      rw [List.filter_eq_nil_iff.2 hwoken, List.filter_cons_of_pos hon]
      simp
    · rw [List.filter_cons_of_neg fun hon' => hh (isOn_unique hon' hon)]
      simp
  have hturns : Turns (waitingOn H u h' name' ++
      if h' = h ∧ name' = name then [u.executed.length] else [])
      (Leased H s' h' name') (handledOn H u h' name') (u.executed.length + 1) := by
    have hleased : ∀ c', Leased H s' h' name' c' → Leased H u.sys h' name' c' :=
      fun c' hl => leased_of_joins huse hl
    split_ifs
    · exact (hi.turns h' name').join.mono (List.Sublist.refl _) hleased (Nat.le_refl _)
    · rw [List.append_nil]
      exact (hi.turns h' name').mono (List.Sublist.refl _) hleased (Nat.le_succ _)
  rw [← hw, ← handledOn_executed hi (h, cmd) h' name', ← List.length_singleton (a := (h, cmd)),
    ← List.length_append] at hturns
  exact hturns

omit [DecidableEq I] [Truthy V] in
/-- A new call that finds its lock free goes before all others, if no one woken has yet to ask for
it. -/
theorem Inv.takes {cmd : Command I V} (hi : Inv H u) (hname : name ≠ "")
    (hcmd : lockName H cmd = some name) (hc : c = u.executed.length)
    (hwoken : ∀ c' ∈ woken u.microtasks, ¬ isOn H u h name c')
    (huse : ∀ c', lockUse H s' c' =
      if c' = c then some ⟨h, name, some .acquired⟩ else lockUse H u.sys c')
    (hlock : ∀ h', s'.lock h' = if h' = h then (u.sys.lock h).take name else u.sys.lock h')
    (hd : (u.sys.lock h).namedLocks.lookup name = none)
    (hshape : CommandHandlers.Shape H s') : Inv H { u with
      sys := s', executed := u.executed ++ [(h, cmd)]
      microtasks := u.microtasks ++ [.lease c] } := by
  subst hc
  have hon := isOn_executed_self (u := u) (h := h) hcmd
  have hnew := hi.queued.not_made (Nat.le_refl _)
  refine ⟨(hi.queued.executed (h, cmd)).takes hname hon huse hlock hd hnew hshape,
    fun c hc => Nat.lt_of_lt_of_le (hi.handled_lt c hc) (by simp), fun h' name' => ?_⟩
  have hturns : Turns (waitingOn H u h' name') (Leased H s' h' name') (handledOn H u h' name')
      (u.executed.length + 1) := by
    by_cases hh : h' = h ∧ name' = name
    · obtain ⟨rfl, rfl⟩ := hh
      have hnil : waitingOn H u h' name' = [] := by
        rw [waitingOn, List.filter_eq_nil_iff.2 hwoken, List.append_nil]
        exact hi.queued.awaiting_free hd
      have ht := hi.turns h' name'
      rw [hnil] at ht ⊢
      refine ht.come fun c' hl => ?_
      rcases leased_of_takes huse hl with ⟨hc', -⟩ | hl
      · exact hc'
      · exact absurd hd (hi.queued.lookup_ne_none hl)
    · refine (hi.turns h' name').mono (List.Sublist.refl _) (fun c' hl => ?_) (Nat.le_succ _)
      rcases leased_of_takes huse hl with ⟨-, hh'⟩ | hl
      · exact absurd hh' hh
      · exact hl
  rw [← waitingOn_executed hi.queued (h, cmd) h' name', ← handledOn_executed hi (h, cmd) h' name',
    ← List.length_singleton (a := (h, cmd)), ← List.length_append] at hturns
  simp only [waitingOn, woken_append, woken_lease, List.append_nil] at hturns ⊢
  exact hturns

variable {l : List Microtask}

omit [DecidableEq I] [Truthy V] in
/-- Who was woken is nowhere else. -/
theorem Inv.woken_head (hi : Inv H u) (hm : u.microtasks = .acquire c :: l) {d : ℕ}
    (hu : lockUse H u.sys c = some ⟨h, name, some (.blockingLock d)⟩)
    (hd : d ∈ (u.sys.lock h).resolved) :
    c ∉ u.awaiting ∧ c ∉ woken l ∧ .lease c ∉ l := by
  refine ⟨fun hmem => ?_, fun hmem => ?_, fun hmem => ?_⟩
  · obtain ⟨h', name', d', hu', hd'⟩ := hi.queued.awaiting c hmem
    obtain ⟨rfl, rfl, hdd⟩ := LockUse.mk.inj (Option.some.inj (hu.symm.trans hu'))
    obtain rfl := Acquiring.blockingLock.inj (Option.some.inj hdd)
    exact ((hi.queued.named h).pending name d hd').2 hd
  · have hon : isOn H u h name c := (hi.queued.use c _ hu).2
    have hsorted := (hi.turns h name).waiting_sorted
    rw [waitingOn, hm, show woken (.acquire c :: l) = c :: woken l from rfl,
      List.filter_cons_of_pos hon] at hsorted
    have hcons := (List.pairwise_append.1 hsorted).2.1
    exact Nat.lt_irrefl c
      ((List.pairwise_cons.1 hcons).1 c (List.mem_filter.2 ⟨hmem, hon⟩))
  · obtain ⟨_, _, hu'⟩ := hi.queued.granted c (hm ▸ List.mem_cons_of_mem _ hmem)
    rw [hu] at hu'
    cases hu'

omit [DecidableEq I] [Truthy V] in
/-- Who was woken first and finds the lock taken stays before the others woken. -/
theorem Inv.waits {d d' : ℕ} (hi : Inv H u) (hm : u.microtasks = .acquire c :: l)
    (hu : lockUse H u.sys c = some ⟨h, name, some (.blockingLock d')⟩)
    (hd' : d' ∈ (u.sys.lock h).resolved)
    (huse : ∀ c', lockUse H s' c' =
      if c' = c then some ⟨h, name, some (.blockingLock d)⟩ else lockUse H u.sys c')
    (hlock : ∀ h', s'.lock h' = u.sys.lock h')
    (hd : (u.sys.lock h).namedLocks.lookup name = some d)
    (hshape : CommandHandlers.Shape H s') :
    Inv H { u with sys := s', microtasks := l, awaiting := u.awaiting ++ [c] } := by
  obtain ⟨hname, hon⟩ := hi.queued.use c _ hu
  have hpop : Queued H { u with microtasks := l } :=
    hi.queued.of_sublist rfl rfl (hm ▸ List.sublist_cons_self ..) rfl
  refine ⟨hpop.joins hname hon huse hlock hd (hi.woken_head hm hu hd') hshape, hi.handled_lt,
    fun h' name' => ?_⟩
  have hw : (u.awaiting ++ [c]).filter (isOn H u h' name') ++ (woken l).filter (isOn H u h' name')
      = waitingOn H u h' name' := by
    rw [waitingOn, hm, show woken (.acquire c :: l) = [c] ++ woken l from rfl,
      List.filter_append, List.filter_append, List.append_assoc]
  have hturns := (hi.turns h' name').mono (List.Sublist.refl _)
    (fun c' (hl : Leased H s' h' name' c') => leased_of_joins huse hl) (Nat.le_refl _)
  rw [← hw] at hturns
  exact hturns

omit [DecidableEq I] [Truthy V] in
/-- Who was woken first and finds the lock free was the first in line. -/
theorem Inv.goes {d : ℕ} (hi : Inv H u) (hm : u.microtasks = .acquire c :: l)
    (hu : lockUse H u.sys c = some ⟨h, name, some (.blockingLock d)⟩)
    (hd' : d ∈ (u.sys.lock h).resolved)
    (huse : ∀ c', lockUse H s' c' =
      if c' = c then some ⟨h, name, some .acquired⟩ else lockUse H u.sys c')
    (hlock : ∀ h', s'.lock h' = if h' = h then (u.sys.lock h).take name else u.sys.lock h')
    (hd : (u.sys.lock h).namedLocks.lookup name = none)
    (hshape : CommandHandlers.Shape H s') :
    Inv H { u with sys := s', microtasks := l ++ [.lease c] } := by
  obtain ⟨hname, hon⟩ := hi.queued.use c _ hu
  have hpop : Queued H { u with microtasks := l } :=
    hi.queued.of_sublist rfl rfl (hm ▸ List.sublist_cons_self ..) rfl
  refine ⟨hpop.takes hname hon huse hlock hd (hi.woken_head hm hu hd') hshape, hi.handled_lt,
    fun h' name' => ?_⟩
  have hwoken : woken u.microtasks = [c] ++ woken l := by rw [hm]; rfl
  have hturns : Turns (u.awaiting.filter (isOn H u h' name') ++ (woken l).filter (isOn H u h' name'))
      (Leased H s' h' name') (handledOn H u h' name') u.executed.length := by
    have ht := hi.turns h' name'
    rw [waitingOn, hwoken, List.filter_append] at ht
    by_cases hh : h' = h ∧ name' = name
    · obtain ⟨rfl, rfl⟩ := hh
      have hnil := hi.queued.awaiting_free hd
      rw [hnil, List.filter_cons_of_pos hon] at ht
      rw [hnil]
      refine ht.take fun c' hl => ?_
      rcases leased_of_takes huse hl with ⟨hc', -⟩ | hl
      · exact hc'
      · exact absurd hd (hi.queued.lookup_ne_none hl)
    · rw [List.filter_cons_of_neg fun hon' => hh (isOn_unique hon' hon)] at ht
      refine ht.mono (List.Sublist.refl _) (fun c' hl => ?_) (Nat.le_refl _)
      rcases leased_of_takes huse hl with ⟨-, hh'⟩ | hl
      · exact absurd hh' hh
      · exact hl
  show Turns (_ ++ (woken (l ++ [.lease c])).filter _) _ _ _
  rw [woken_append, woken_lease, List.append_nil]
  exact hturns

omit [DecidableEq I] [Truthy V] in
/-- Who was granted its lock goes on when no one woken for it is left. -/
theorem Inv.leases (hi : Inv H u) (hm : u.microtasks = .lease c :: l)
    (hu : lockUse H u.sys c = some ⟨h, name, some .acquired⟩)
    (huse : ∀ c', lockUse H s' c' =
      if c' = c then some ⟨h, name, none⟩ else lockUse H u.sys c')
    (hlock : ∀ h', s'.lock h' = u.sys.lock h') (hshape : CommandHandlers.Shape H s') :
    Inv H { u with sys := s', microtasks := l } := by
  have hpop : Queued H { u with microtasks := l } :=
    hi.queued.of_sublist rfl rfl (hm ▸ List.sublist_cons_self ..) rfl
  have horder := hi.queued.order
  rw [hm, List.pairwise_cons] at horder
  have hon : isOn H u h name c := (hi.queued.use c _ hu).2
  refine ⟨hpop.leases hu huse hlock (fun hmem => ?_) (fun c' hmem hon' => ?_) hshape, hi.handled_lt,
    fun h' name' => ?_⟩
  · exact (horder.1 _ hmem c rfl).1 rfl
  · exact (horder.1 _ (mem_woken.1 hmem) c rfl).2 c' rfl h name hon hon'
  · have hw : waitingOn H { u with sys := s', microtasks := l } h' name' = waitingOn H u h' name' := by
      rw [waitingOn, waitingOn, hm]
      rfl
    rw [hw]
    refine (hi.turns h' name').mono (List.Sublist.refl _) (fun c' hl => ?_) (Nat.le_refl _)
    obtain ⟨awaits, ha, hu'⟩ := hl
    rw [show lockUse H s' c' = _ from huse c'] at hu'
    split_ifs at hu' with hc
    · obtain ⟨rfl, rfl, -⟩ := LockUse.mk.inj (Option.some.inj hu')
      exact ⟨_, .inr rfl, hc ▸ hu⟩
    · exact ⟨awaits, ha, hu'⟩

omit [DecidableEq I] [Truthy V] in
/-- Who has a lock may have its command handled. -/
theorem Inv.handles (hi : Inv H u) (hu : lockUse H u.sys c = some ⟨h, name, none⟩) :
    Inv H { u with handled := u.handled ++ [c] } := by
  obtain ⟨-, hon⟩ := hi.queued.use c _ hu
  refine ⟨hi.queued.of_sublist rfl rfl (List.Sublist.refl _) rfl, fun c' hmem => ?_,
    fun h' name' => ?_⟩
  · rcases List.mem_append.1 hmem with hmem | hmem
    · exact hi.handled_lt c' hmem
    · obtain rfl := List.mem_singleton.1 hmem
      exact hi.queued.lt_of_use hu
  · have hturns : Turns (waitingOn H u h' name') (Leased H u.sys h' name')
        (handledOn H u h' name' ++ [c].filter (isOn H u h' name')) u.executed.length := by
      by_cases hh : isOn H u h' name' c
      · obtain ⟨rfl, rfl⟩ := isOn_unique hh hon
        rw [List.filter_cons_of_pos hh]
        exact (hi.turns h' name').serve ⟨none, .inl rfl, hu⟩
      · rw [List.filter_cons_of_neg hh, List.filter_nil, List.append_nil]
        exact hi.turns h' name'
    rw [handledOn, ← List.filter_append] at hturns
    exact hturns

end turns

/-! ## Steps -/

section step

variable {u u' : Microtasks I V σ}

omit [DecidableEq I] [Truthy V] in
theorem isResolved_of_awaits (hN : ∀ h, (s.lock h).Named) (ha : Awaits H s c) :
    isResolved s c = false := by
  obtain ⟨h, name, d, hu, hd⟩ := ha
  simpa [isResolved_of_use hu] using ((hN h).pending name d hd).2

omit [DecidableEq I] [Truthy V] in
theorem isResolved_of_woken (hw : Woken H s c) : isResolved s c = true := by
  obtain ⟨h, name, d, hu, hd⟩ := hw
  simpa [isResolved_of_use hu] using hd

omit [DecidableEq I] [Truthy V] in
theorem filter_resolved (hN : ∀ h, (s.lock h).Named) {l : List ℕ} (ha : ∀ c ∈ l, Awaits H s c) :
    l.filter (isResolved s) = [] ∧ l.filter (!isResolved s ·) = l := by
  constructor
  · exact List.filter_eq_nil_iff.2 fun c hc => by simp [isResolved_of_awaits hN (ha c hc)]
  · exact List.filter_eq_self.2 fun c hc => by simp [isResolved_of_awaits hN (ha c hc)]

omit [DecidableEq I] [Truthy V] in
theorem use_of_handling {x : CommandHandlers.Action I V} (h : handling s x = some c) :
    ∃ h name, lockUse H s c = some ⟨h, name, none⟩ := by
  unfold handling at h
  split at h
  · obtain ⟨call, hc, h⟩ := Option.bind_eq_some_iff.1 h
    split at h
    · rename_i hp
      obtain ⟨id, hid, rfl⟩ := Option.map_eq_some_iff.1 h
      exact ⟨call.handler, H.lockName id, by simp [lockUse, hc, useOf, hid, hp, Phase.awaits]⟩
    · cases h
  · cases h

omit [DecidableEq I] [Truthy V] in
theorem Inv.of_handling (hi : Inv H u) (x : CommandHandlers.Action I V) :
    Inv H { u with handled := u.handled ++ (handling u.sys x).toList } := by
  rcases hx : handling u.sys x with _ | c
  · exact hi.of_sublist rfl rfl (List.Sublist.refl _) rfl (List.append_nil _)
  · obtain ⟨h, name, hu⟩ := use_of_handling (H := H) hx
    exact hi.handles hu

/-- A step that is not of `acquire` nor the first after it. -/
theorem Inv.advance_other (hi : Inv H u) {x : CommandHandlers.Action I V} (hx : acquirer x = none)
    (hl : ∀ c, x ≠ .lease c) (h : advance H u x = some u') : Inv H u' := by
  obtain ⟨sys, hst, rfl⟩ := Option.map_eq_some_iff.1 h
  have heffect := CommandHandlers.step_effect hst
  have hshape := heffect.shape hi.queued.shape
  simp only [hx, Option.filter_none, Option.toList_none, List.map_nil, List.append_nil]
  rcases keeps_of_effect heffect hx hl with hS | ⟨c, h, name, hF⟩
  · have hnext := hi.same hS hshape
    obtain ⟨h1, h2⟩ := filter_resolved hnext.queued.named hnext.queued.awaiting
    simp only at h1 h2
    rw [h1, h2, List.map_nil, List.append_nil]
    exact hnext.of_handling x
  · have hnext := hi.finishes hF hshape
    have hresolved : ∀ c' ∈ u.awaiting, isResolved sys c' = isOn H u h name c' := by
      intro c' hmem
      cases hon : isOn H u h name c' with
      | true =>
        refine isResolved_of_woken (H := H) (hnext.queued.acquire c' ?_)
        simp only [woken_append, woken_map_acquire]
        exact List.mem_append_right _ (List.mem_filter.2 ⟨hmem, hon⟩)
      | false =>
        exact isResolved_of_awaits hnext.queued.named
          (hnext.queued.awaiting c' (List.mem_filter.2 ⟨hmem, by simp [hon]⟩))
    rw [List.filter_congr hresolved,
      List.filter_congr fun c' hmem => congrArg (!·) (hresolved c' hmem)]
    exact hnext.of_handling x

omit [DecidableEq I] [Truthy V] in
/-- A call that asks for its lock awaits who has it, or takes it. -/
theorem Acquires.cases {h : ℕ} {name : String} {l : Lock} {awaits : Acquiring}
    (hA : Acquires H s s' c h name l awaits) (hN : (s.lock h).Named) (hname : name ≠ "") :
    (∃ d, awaits = .blockingLock d ∧ (s.lock h).namedLocks.lookup name = some d
        ∧ ∀ h', s'.lock h' = s.lock h')
      ∨ awaits = .acquired ∧ (s.lock h).namedLocks.lookup name = none
        ∧ ∀ h', s'.lock h' = if h' = h then (s.lock h).take name else s.lock h' := by
  have hblocked := hA.acquireBlocked
  rw [hN.acquireBlocked hname] at hblocked
  rcases hd : (s.lock h).namedLocks.lookup name with _ | d
  · rw [hd] at hblocked
    obtain ⟨rfl, rfl⟩ := Prod.mk.inj hblocked
    exact .inr ⟨rfl, rfl, hA.lock⟩
  · rw [hd] at hblocked
    obtain ⟨rfl, rfl⟩ := Prod.mk.inj hblocked
    refine .inl ⟨d, rfl, rfl, fun h' => ?_⟩
    rw [hA.lock]
    split_ifs with hh
    · rw [hh]
    · rfl

section acquires

variable {x : CommandHandlers.Action I V} {h d : ℕ} {name : String}

/-- The call has to wait for its lock. -/
theorem Inv.of_blocked (hnext : Inv H { u with sys := s', awaiting := u.awaiting ++ [c] })
    (hst : H.step u.sys x = some s') (hx : acquirer x = some c) (hnone : handling s' x = none)
    (hself : lockUse H s' c = some ⟨h, name, some (.blockingLock d)⟩)
    (hadv : advance H u x = some u') : Inv H u' := by
  rw [advance, hst] at hadv
  obtain rfl := Option.some.inj hadv
  obtain ⟨h1, h2⟩ := filter_resolved hnext.queued.named
    fun c' hmem => hnext.queued.awaiting c' (List.mem_append_left _ hmem)
  simp only at h1 h2
  simp only [hx, hnone, h1, h2, acquiring_of_use hself, Option.filter, Option.bind_some,
    Acquiring.deferred]
  simpa using hnext

/-- The call takes its lock. -/
theorem Inv.of_acquired (hnext : Inv H { u with
      sys := s', microtasks := u.microtasks ++ [.lease c] })
    (hst : H.step u.sys x = some s') (hx : acquirer x = some c) (hnone : handling s' x = none)
    (hself : lockUse H s' c = some ⟨h, name, some .acquired⟩)
    (hadv : advance H u x = some u') : Inv H u' := by
  rw [advance, hst] at hadv
  obtain rfl := Option.some.inj hadv
  obtain ⟨h1, h2⟩ := filter_resolved hnext.queued.named hnext.queued.awaiting
  simp only at h1 h2
  simp only [hx, hnone, h1, h2, acquiring_of_use hself, Option.filter, Option.bind_some,
    Acquiring.deferred]
  simpa using hnext

end acquires

theorem Inv.advance_execute (hi : Inv H u) {h : ℕ} {cmd : Command I V}
    (hc : c = u.executed.length)
    (hturn : ∀ name, lockName H cmd = some name →
      name ≠ "" ∧ ∀ c' ∈ woken u.microtasks, ¬ isOn H u h name c')
    (hadv : advance H { u with executed := u.executed ++ [(h, cmd)] } (.execute c h cmd) = some u') :
    Inv H u' := by
  obtain ⟨sys, hst, hu'⟩ := Option.map_eq_some_iff.1 hadv
  have hshape := (CommandHandlers.step_effect hst).shape hi.queued.shape
  obtain ⟨-, ⟨hS, hacq⟩ | ⟨name, l, awaits, hcmd, hA⟩⟩ := execute_acquires hst (hi.queued.named h)
    fun name hcmd => (hturn name hcmd).1
  · obtain rfl := hu'
    have hnext := (hi.executed (h, cmd)).same hS hshape
    obtain ⟨h1, h2⟩ := filter_resolved hnext.queued.named hnext.queued.awaiting
    simp only at h1 h2
    simp only [acquirer, h1, h2, hacq, Option.filter, Option.bind_none]
    simpa [handling] using hnext
  · obtain ⟨hname, hwoken⟩ := hturn name hcmd
    have hself : lockUse H sys c = some ⟨h, name, some awaits⟩ := by rw [hA.uses, if_pos rfl]
    rcases hA.cases (hi.queued.named h) hname with ⟨d, rfl, hd, hlock⟩ | ⟨rfl, hd, hlock⟩
    · have hnext := hi.joins hname hcmd hc hwoken hA.uses hlock hd hshape
      exact hnext.of_blocked hst rfl rfl hself hadv
    · have hnext := hi.takes hname hcmd hc hwoken hA.uses hlock hd hshape
      exact hnext.of_acquired hst rfl rfl hself hadv

variable {l : List Microtask}

theorem Inv.advance_acquire (hi : Inv H u) (hm : u.microtasks = .acquire c :: l)
    (hadv : advance H { u with microtasks := l } (.acquire c) = some u') : Inv H u' := by
  obtain ⟨sys, hst, -⟩ := Option.map_eq_some_iff.1 hadv
  have hshape := (CommandHandlers.step_effect hst).shape hi.queued.shape
  obtain ⟨h, name, d', hu, hd'⟩ := hi.queued.acquire c (by rw [hm]; exact List.mem_cons_self)
  obtain ⟨l', awaits, hA⟩ := acquire_acquires hst hu
  have hname := (hi.queued.use c _ hu).1
  have hself : lockUse H sys c = some ⟨h, name, some awaits⟩ := by rw [hA.uses, if_pos rfl]
  rcases hA.cases (hi.queued.named h) hname with ⟨d, rfl, hd, hlock⟩ | ⟨rfl, hd, hlock⟩
  · have hnext := hi.waits hm hu hd' hA.uses hlock hd hshape
    exact hnext.of_blocked hst rfl rfl hself hadv
  · have hnext := hi.goes hm hu hd' hA.uses hlock hd hshape
    exact hnext.of_acquired hst rfl rfl hself hadv

theorem Inv.advance_lease (hi : Inv H u) (hm : u.microtasks = .lease c :: l) {running : Bool}
    (hadv : advance H { u with microtasks := l, running } (.lease c) = some u') : Inv H u' := by
  obtain ⟨sys, hst, rfl⟩ := Option.map_eq_some_iff.1 hadv
  have hshape := (CommandHandlers.step_effect hst).shape hi.queued.shape
  obtain ⟨h, name, hu⟩ := hi.queued.granted c (by rw [hm]; exact List.mem_cons_self)
  obtain ⟨huse, hlock⟩ := lease_uses hst hu
  have hnext := hi.leases hm hu huse hlock hshape
  obtain ⟨h1, h2⟩ := filter_resolved hnext.queued.named hnext.queued.awaiting
  simp only at h1 h2
  simp only [acquirer, h1, h2, Option.filter]
  refine hnext.of_sublist rfl ?_ ?_ rfl ?_ <;> simp [handling]

variable (H)

omit [DecidableEq I] [Truthy V] in
/-- No call is made for a lock while calls woken for it have yet to ask for it again. -/
def InTurn (u : Microtasks I V σ) : Action I V → Prop
  | .run (.execute _ h cmd) => ∀ name ∈ lockName H cmd,
    name ≠ "" ∧ ∀ c ∈ woken u.microtasks, ¬ isOn H u h name c
  | _ => True

omit [Truthy I] [Truthy V] in
/-- The call is of the handler, and its command of the aggregate. -/
def isOf (u : Microtasks I V σ) (h : ℕ) (id : I) (c : ℕ) : Bool :=
  u.executed[c]?.any fun x => x.1 = h && x.2.aggregateId = some id

omit [Truthy V] in
/-- A handler's commands of an aggregate are handled in the order of the calls; one that is tried
again is handled again. -/
def InOrder (u : Microtasks I V σ) : Prop :=
  ∀ h id, truthy id → (u.handled.filter (isOf u h id)).Pairwise (· ≤ ·)

variable {H}

omit [DecidableEq I] [Truthy V] in
theorem inv_init : Inv H ({} : Microtasks I V σ) := by
  refine ⟨⟨CommandHandlers.shape_init, fun h => Lock.Named.empty, ?_, ?_, ?_, ?_, List.Pairwise.nil,
    ?_⟩, ?_, fun h name => ?_⟩
  · intro c x hu
    cases hu
  · intro c hc
    cases hc
  · intro c hc
    cases hc
  · intro c hc
    cases hc
  · intro c hc
    cases hc
  · intro c hc
    cases hc
  · refine (Turns.nil 0).mono (List.Sublist.refl _) (fun c hl => ?_) (Nat.le_refl _)
    obtain ⟨awaits, -, hu⟩ := hl
    cases hu

theorem inv_step (hi : Inv H u) {x : Action I V} (hC : InTurn H u x)
    (hst : step H u x = some u') : Inv H u' := by
  cases x with
  | macrotask =>
    rw [step] at hst
    split_ifs at hst
    obtain rfl := Option.some.inj hst
    exact hi.of_sublist rfl rfl (List.Sublist.refl _) rfl rfl
  | microtask =>
    rw [step] at hst
    split_ifs at hst
    split at hst
    · cases hst
    · rename_i hm
      exact hi.advance_acquire hm hst
    · rename_i hm
      exact hi.advance_lease hm hst
    · rename_i hm
      obtain rfl := Option.some.inj hst
      exact hi.of_sublist rfl rfl (hm ▸ List.sublist_cons_self ..) rfl rfl
  | run action =>
    cases hr : u.running with
    | false => simp [step, hr] at hst
    | true =>
      cases action with
      | acquire | lease => simp [step, hr] at hst
      | execute c h cmd =>
        simp only [step, hr, if_true] at hst
        split_ifs at hst with hc
        exact hi.advance_execute hc (fun name hcmd => hC name hcmd) (by rw [← hr] at hst; exact hst)
      | _ =>
        simp only [step, hr, if_true] at hst
        exact hi.advance_other rfl (by simp) hst
  | queueMicrotask =>
    rw [step] at hst
    split_ifs at hst
    obtain rfl := Option.some.inj hst
    exact hi.push
  | returns =>
    rw [step] at hst
    split_ifs at hst
    obtain rfl := Option.some.inj hst
    exact hi.of_sublist rfl rfl (List.Sublist.refl _) rfl rfl

omit [Truthy V] in
theorem Inv.inOrder (hi : Inv H u) : InOrder u := by
  intro h id hid
  refine (hi.turns h (H.lockName id)).served_sorted.sublist ?_
  refine List.monotone_filter_right u.handled fun c hc => ?_
  rcases hu : u.executed[c]? with _ | ⟨h', cmd⟩
  · simp [isOf, hu] at hc
  · simp only [isOf, hu, Option.any_some, Bool.and_eq_true, decide_eq_true_eq] at hc
    simp [isOn, hu, lockName, hc.1, hc.2, Option.filter, hid]

/-- As long as no call is made between the release of its lock and the wake-ups of those that await
it, a handler's commands of an aggregate are handled in the order of the calls. -/
theorem handled_inOrder (h : (machine H).ReachIf (InTurn H) u) : InOrder u := by
  have hi : Inv H u := Machine.ReachIf.invariant (P := Inv H)
    (fun s (h0 : s = {}) => h0 ▸ inv_init) (fun _ _ _ hi hC hst => inv_step hi hC hst) h
  exact hi.inOrder

end step

section runs

instance (H : CommandHandlers I V σ) (u : Microtasks I V σ) : ∀ x, Decidable (InTurn H u x)
  | .run (.execute _ h cmd) => inferInstanceAs (Decidable (∀ name ∈ lockName H cmd,
      name ≠ "" ∧ ∀ c ∈ woken u.microtasks, ¬ isOn H u h name c))
  | .run (.acquire _) | .run (.lease _) | .run (.restore _) | .run (.restoreFails _)
  | .run (.handle _) | .run (.emit ..) | .run (.takeSnapshot _) | .run (.handlerThrows _)
  | .run (.handlerReturns ..) | .run (.process _) | .run (.settle ..) | .run (.append _)
  | .macrotask | .microtask | .queueMicrotask | .returns => isTrue trivial

/-- An aggregate that counts its events. -/
def counters : CommandHandlers String ℕ ℕ where
  aggregateType := {
    state := fun _ => 0
    handler := fun state _ => (state + 1, true)
    makeSnapshot := some
    restoreSnapshot := fun _ payload => some payload }
  lockName := id
  newId := id

def count (c : ℕ) : Action String ℕ :=
  .run (.execute c 0 { type := "count", aggregateId := some "a", payload := 0 })

def task (code : List (CommandHandlers.Action String ℕ)) : List (Action String ℕ) :=
  [.macrotask] ++ code.map .run ++ [.returns]

/-- The first of two calls is handled, and its end and some other code are microtasks one after the
other. -/
def handledFirst : List (Action String ℕ) :=
  [.macrotask, count 0, count 1, .returns, .microtask, .returns]
    ++ task [.restore { owner := .cache 0 "a", serial := 0 }, .handle 0]
    ++ [.macrotask, .queueMicrotask, .queueMicrotask, .returns, .microtask]

/-- The other code makes a call, and then the second is woken. -/
def overtaken : List (Action String ℕ) :=
  handledFirst ++ [.run (.handlerReturns 0 false), .returns, .microtask, count 2, .returns,
      .microtask, .microtask, .returns]
    ++ task [.handle 2, .handlerReturns 2 false] ++ [.microtask, .microtask, .returns]
    ++ task [.handle 1]

/-- A call is made while the first has its lock. -/
def inLine : List (Action String ℕ) :=
  handledFirst ++ [count 2, .run (.handlerReturns 0 false), .returns, .microtask, .returns,
      .microtask, .microtask, .microtask, .returns]
    ++ task [.handle 1, .handlerReturns 1 false] ++ [.microtask, .microtask, .returns]
    ++ task [.handle 2]

theorem handled_inOrder_inLine : ∃ u, (machine counters).run {} inLine = some u
    ∧ u.handled = [0, 1, 2] ∧ InOrder u := by
  obtain ⟨u, hu, hh⟩ : ∃ u, (machine counters).run {} inLine = some u ∧ u.handled = [0, 1, 2] :=
    ⟨_, rfl, rfl⟩
  exact ⟨u, hu, hh,
    handled_inOrder ((Machine.ReachIf.init (C := InTurn counters) rfl).run (by decide) hu)⟩

/-- A call that is made between the release of the lock and the wake-up is handled first. -/
theorem handled_inOrder_fails : ¬ ∀ (H : CommandHandlers String ℕ ℕ) u,
    (machine H).Reach u → InOrder u := by
  intro hall
  obtain ⟨u, hu, hh⟩ : ∃ u, (machine counters).run {} overtaken = some u
      ∧ u.handled.filter (isOf u 0 "a") = [0, 2, 1] := ⟨_, rfl, rfl⟩
  have hsorted := hall counters u (Machine.reach_of_run rfl hu) 0 "a" rfl
  rw [hh] at hsorted
  exact absurd hsorted (by decide)

end runs

end Microtasks

end NodeCqrs
