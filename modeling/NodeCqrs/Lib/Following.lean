import Mathlib.Data.List.Infix
import Mathlib.Logic.Function.Basic
import NodeCqrs.Lib.Machine

/-!
# Followers of a log

A log grows at its end. A follower reads what is after the last thing it has got, takes what it has
found one by one while the log goes on growing, and may stop at any of it and read again. If a read
finds what is wanted of the log after what it was asked for, and nothing else (`Lawful`), each
follower gets everything that it wants once and in the order of the log (`Lawful.follows`).
-/

namespace Following

variable {S C Q E Item : Type*}

/-- What a commit leaves of a store, what a read after the last thing got finds unless it fails,
and what an item gives whoever takes it. -/
structure Store (S C Q E Item : Type*) where
  Init : S → Prop
  commit : S → C → S
  log : S → List Item
  read : S → Q → Option E → Option (List Item)
  give : S → Item → E

/-- What has been received and is still to come of a read, if it is not at its end, the log it was
of, and the log of the last read that was at its end. -/
structure Follower (E Item : Type*) where
  received : List E := []
  stream : Option (List Item) := none
  read : List Item := []
  upTo : List Item := []

structure Sys (S E Item : Type*) where
  store : S
  followers : ℕ → Follower E Item := fun _ => {}

inductive Action (C : Type*)
  | commit (c : C)
  | read (f : ℕ)
  | next (f : ℕ)
  | stop (f : ℕ)

def Sys.set (s : Sys S E Item) (f : ℕ) (follower : Follower E Item) : Sys S E Item :=
  { s with followers := Function.update s.followers f follower }

variable (L : Store S C Q E Item) (query : ℕ → Q)

def step (s : Sys S E Item) : Action C → Option (Sys S E Item)
  | .commit c => some { s with store := L.commit s.store c }
  | .read f =>
    match (s.followers f).stream with
    | some _ => none
    | none => (L.read s.store (query f) (s.followers f).received.getLast?).map fun items =>
      s.set f { s.followers f with stream := some items, read := L.log s.store }
  | .next f =>
    match (s.followers f).stream with
    | none => none
    | some [] => some (s.set f
        { s.followers f with stream := none, upTo := (s.followers f).read })
    | some (item :: items) => some (s.set f { s.followers f with
        received := (s.followers f).received ++ [L.give s.store item]
        stream := some items })
  | .stop f => some (s.set f { s.followers f with stream := none })

def machine : Machine (Sys S E Item) (Action C) where
  Init s := L.Init s.store ∧ ∀ f, s.followers f = {}
  step := step L query

/-- Where `Ok` commits keep `Inv`, the log grows at its end and what an item of it gives stays; a
read finds what is wanted of the log after the item that gave the last thing got. -/
structure Lawful (wanted : Q → Item → Bool) (Inv : S → Prop) (Ok : S → C → Prop) : Prop where
  init : ∀ s, L.Init s → Inv s
  inv : ∀ s c, Inv s → Ok s c → Inv (L.commit s c)
  grows : ∀ s c, Inv s → Ok s c → L.log s <+: L.log (L.commit s c)
  give : ∀ s c item, Inv s → Ok s c → item ∈ L.log s →
    L.give (L.commit s c) item = L.give s item
  read_none : ∀ s q items, Inv s → L.read s q none = some items →
    items = (L.log s).filter (wanted q)
  read_some : ∀ s q items pre item post, Inv s → L.log s = pre ++ item :: post →
    L.read s q (some (L.give s item)) = some items → items = post.filter (wanted q)

/-- Each step's commit is `Ok`. -/
def Commits (Ok : S → C → Prop) (s : Sys S E Item) : Action C → Prop
  | .commit c => Ok s.store c
  | .read _ | .next _ | .stop _ => True

instance {Ok : S → C → Prop} [∀ s c, Decidable (Ok s c)] (s : Sys S E Item) :
    ∀ a : Action C, Decidable (Commits Ok s a)
  | .commit c => inferInstanceAs (Decidable (Ok s.store c))
  | .read _ | .next _ | .stop _ => isTrue trivial

/-- The follower has got what is wanted of the log it has read to its end, in the order of the log,
and maybe more, but nothing twice and nothing else. -/
structure Follows (wanted : Q → Item → Bool) (s : Sys S E Item) (f : ℕ) : Prop where
  upTo : (((s.followers f).upTo.filter (wanted (query f))).map (L.give s.store)) <+:
    (s.followers f).received
  received : (s.followers f).received <+:
    ((L.log s.store).filter (wanted (query f))).map (L.give s.store)

/-- The items `got` are those that gave what the follower has received. -/
structure Got (p : Item → Bool) (give : Item → E) (log : List Item) (follower : Follower E Item)
    (got : List Item) : Prop where
  received : follower.received = got.map give
  wanted : got <+: log.filter p
  upTo : follower.upTo.filter p <+: got
  stream : ∀ rest, follower.stream = some rest → got ++ rest = follower.read.filter p
  read : follower.stream ≠ none → follower.read <+: log

variable {L} {query} {p : Item → Bool} {give give' : Item → E} {log log' got items : List Item}
  {follower : Follower E Item} {item : Item}

theorem Got.grows (h : Got p give log follower got) (hlog : log <+: log')
    (hgive : ∀ item ∈ log, give' item = give item) : Got p give' log' follower got where
  received := by
    rw [h.received]
    refine List.map_congr_left fun item hitem => (hgive item ?_).symm
    exact (List.mem_filter.1 (h.wanted.subset hitem)).1
  wanted := h.wanted.trans (hlog.filter p)
  upTo := h.upTo
  stream := h.stream
  read hs := (h.read hs).trans hlog

/-- A read begins where the last one was left. -/
theorem Got.reads (h : Got p give log follower got) (hitems : got ++ items = log.filter p) :
    Got p give log { follower with stream := some items, read := log } got where
  received := h.received
  wanted := h.wanted
  upTo := h.upTo
  stream _ hrest := Option.some.inj hrest ▸ hitems
  read _ := List.prefix_rfl

theorem Got.next (h : Got p give log follower got) (hs : follower.stream = some (item :: items)) :
    Got p give log { follower with
      received := follower.received ++ [give item]
      stream := some items } (got ++ [item]) := by
  have hread : follower.read <+: log := h.read (by simp [hs])
  have hrest : (got ++ [item]) ++ items = follower.read.filter p := by
    rw [List.append_assoc]
    exact h.stream _ hs
  refine ⟨?_, ?_, h.upTo.trans (List.prefix_append ..), fun rest hr => ?_, fun _ => hread⟩
  · simp [h.received]
  · exact List.IsPrefix.trans ⟨items, hrest⟩ (hread.filter p)
  · exact Option.some.inj hr ▸ hrest

theorem Got.atEnd (h : Got p give log follower got) (hs : follower.stream = some []) :
    Got p give log { follower with stream := none, upTo := follower.read } got where
  received := h.received
  wanted := h.wanted
  upTo := by
    rw [← h.stream _ hs, List.append_nil]
  stream _ hr := by cases hr
  read hr := absurd rfl hr

theorem Got.stops (h : Got p give log follower got) :
    Got p give log { follower with stream := none } got :=
  ⟨h.received, h.wanted, h.upTo, fun _ hr => (by cases hr), fun hr => absurd rfl hr⟩

/-- What is wanted after an item that is wanted is what is wanted of the rest. -/
theorem split_filter {l l' : List Item} (h : l' ++ [item] <+: l.filter p) :
    ∃ pre post, l = pre ++ item :: post ∧ l' ++ [item] ++ post.filter p = l.filter p := by
  obtain ⟨rest, hrest⟩ := h
  obtain ⟨pre, post', rfl, hpre, hpost⟩ := List.filter_eq_append_iff.1
    (hrest.symm.trans (List.append_assoc ..))
  obtain ⟨skipped, post, rfl, hskipped, ha, hpost⟩ := List.filter_eq_cons_iff.1 hpost
  refine ⟨pre ++ skipped, post, by simp, ?_⟩
  rw [← hrest]
  exact congrArg _ hpost

variable {wanted : Q → Item → Bool} {Inv : S → Prop} {Ok : S → C → Prop} {s s' : Sys S E Item}

/-- What a read finds is what is still to come. -/
theorem Lawful.read (hL : Lawful L wanted Inv Ok) (hi : Inv s.store) {q : Q}
    (hg : Got (wanted q) (L.give s.store) (L.log s.store) follower got)
    (hr : L.read s.store q follower.received.getLast? = some items) :
    got ++ items = (L.log s.store).filter (wanted q) := by
  rw [hg.received] at hr
  rcases List.eq_nil_or_concat' got with rfl | ⟨got', item, rfl⟩
  · exact hL.read_none _ _ _ hi hr
  · obtain ⟨pre, post, hlog, heq⟩ := split_filter hg.wanted
    rw [List.map_append, List.map_singleton, List.getLast?_concat] at hr
    rw [hL.read_some _ _ _ pre item post hi hlog hr, heq]

/-- Each follower has what some items of the log gave. -/
def AllGot (L : Store S C Q E Item) (query : ℕ → Q) (wanted : Q → Item → Bool)
    (s : Sys S E Item) : Prop :=
  ∀ f, ∃ got, Got (wanted (query f)) (L.give s.store) (L.log s.store) (s.followers f) got

theorem AllGot.set (h : AllGot L query wanted s) {f : ℕ}
    (hf : ∃ got, Got (wanted (query f)) (L.give s.store) (L.log s.store) follower got) :
    AllGot L query wanted (s.set f follower) := by
  intro g
  by_cases hg : g = f
  · subst hg
    simpa [Sys.set] using hf
  · simpa [Sys.set, hg] using h g

theorem Lawful.step (hL : Lawful L wanted Inv Ok) {a : Action C} (hi : Inv s.store)
    (h : AllGot L query wanted s) (ha : Commits Ok s a) (hst : step L query s a = some s') :
    Inv s'.store ∧ AllGot L query wanted s' := by
  cases a with
  | commit c =>
    obtain rfl := Option.some.inj hst
    refine ⟨hL.inv _ _ hi ha, fun f => ?_⟩
    obtain ⟨got, hg⟩ := h f
    exact ⟨got, hg.grows (hL.grows _ _ hi ha) fun item hitem => hL.give _ _ _ hi ha hitem⟩
  | read f =>
    simp only [Following.step] at hst
    split at hst
    · cases hst
    · obtain ⟨items, hr, rfl⟩ := Option.map_eq_some_iff.1 hst
      obtain ⟨got, hg⟩ := h f
      exact ⟨hi, h.set ⟨got, hg.reads (hL.read hi hg hr)⟩⟩
  | next f =>
    obtain ⟨got, hg⟩ := h f
    simp only [Following.step] at hst
    split at hst
    · cases hst
    · rename_i hs
      obtain rfl := Option.some.inj hst
      exact ⟨hi, h.set ⟨got, hg.atEnd hs⟩⟩
    · rename_i item items hs
      obtain rfl := Option.some.inj hst
      exact ⟨hi, h.set ⟨got ++ [item], hg.next hs⟩⟩
  | stop f =>
    obtain rfl := Option.some.inj hst
    obtain ⟨got, hg⟩ := h f
    exact ⟨hi, h.set ⟨got, hg.stops⟩⟩

/-- A follower of a store whose reads are lawful gets all that it wants of the log up to where it
has read, in the order of the log, and nothing twice. -/
theorem Lawful.follows (hL : Lawful L wanted Inv Ok)
    (h : (machine L query).ReachIf (Commits Ok) s) (f : ℕ) : Follows L query wanted s f := by
  have hi : Inv s.store ∧ AllGot L query wanted s := by
    refine h.invariant (P := fun s => Inv s.store ∧ AllGot L query wanted s) ?_
      fun _ _ _ hi ha hst => hL.step hi.1 hi.2 ha hst
    rintro s ⟨h0, hf⟩
    refine ⟨hL.init _ h0, fun f => ⟨[], ?_⟩⟩
    rw [hf]
    exact ⟨rfl, List.nil_prefix, List.prefix_rfl, fun _ hr => (by cases hr),
      fun hr => absurd rfl hr⟩
  obtain ⟨got, hg⟩ := hi.2 f
  constructor
  · rw [hg.received]
    exact hg.upTo.map _
  · rw [hg.received]
    exact hg.wanted.map _

end Following
