import SchemaBrain.Base.Python

/-!
# Computations that look keys up

A computation asks for the values of keys, one after the other, and may raise. It is run plainly,
with one call of the source per question, or through a cache that answers every question after
the first. Both runs give one answer, and the second calls the source once per key.
-/

namespace SchemaBrain.Base

/-- A computation that asks for the values of keys and may raise. -/
inductive Lookups (κ β ε α : Type)
  | ret (a : α)
  | raise (e : ε)
  | ask (key : κ) (next : β → Lookups κ β ε α)

namespace Lookups

variable {κ β ε α α' γ : Type}

/-- The value of one key. -/
def fetch (key : κ) : Lookups κ β ε β := .ask key .ret

/-- The computation that goes on with the answer. -/
def bind : Lookups κ β ε α → (α → Lookups κ β ε α') → Lookups κ β ε α'
  | .ret a, f => f a
  | .raise e, _ => .raise e
  | .ask key next, f => .ask key fun b => (next b).bind f

instance : Monad (Lookups κ β ε) where
  pure := .ret
  bind := bind

theorem bind_ret (x : Lookups κ β ε α) : x.bind .ret = x := by
  induction x with
  | ret a => rfl
  | raise e => rfl
  | ask key next ih => simp only [bind, ih]

theorem bind_assoc (x : Lookups κ β ε α) (f : α → Lookups κ β ε α')
    (g : α' → Lookups κ β ε γ) : (x.bind f).bind g = x.bind fun a => (f a).bind g := by
  induction x with
  | ret a => rfl
  | raise e => rfl
  | ask key next ih => simp only [bind, ih]

instance : LawfulMonad (Lookups κ β ε) :=
  LawfulMonad.mk' _ (fun x => bind_ret x) (fun _ _ => rfl) fun x f g => bind_assoc x f g

/-! ## The plain run -/

section Run

variable (source : κ → Except ε β)

/-- Every question goes to the source. -/
def run : Lookups κ β ε α → Except ε α
  | .ret a => .ok a
  | .raise e => .error e
  | .ask key next =>
    match source key with
    | .ok b => (next b).run
    | .error e => .error e

/-- The questions of the plain run, in order. -/
def questions : Lookups κ β ε α → List κ
  | .ret _ => []
  | .raise _ => []
  | .ask key next =>
    match source key with
    | .ok b => key :: (next b).questions
    | .error _ => [key]

variable {source}

@[simp] theorem run_pure (a : α) : (pure a : Lookups κ β ε α).run source = .ok a := rfl

@[simp] theorem run_raise (e : ε) : (raise e : Lookups κ β ε α).run source = .error e := rfl

@[simp] theorem run_fetch (key : κ) : (fetch key : Lookups κ β ε β).run source = source key := by
  simp only [fetch, run]
  cases source key with
  | ok b => rfl
  | error e => rfl

/-- Running a sequence runs its parts in turn. -/
@[simp] theorem run_bind (x : Lookups κ β ε α) (f : α → Lookups κ β ε α') :
    (x >>= f).run source = (x.run source >>= fun a => (f a).run source) := by
  change (x.bind f).run source = _
  induction x with
  | ret a => rfl
  | raise e => rfl
  | ask key next ih =>
    simp only [bind, run]
    cases source key with
    | ok b => exact ih b
    | error e => rfl

/-- Running a loop runs its body at each item. -/
theorem run_mapM (f : γ → Lookups κ β ε α) (items : List γ) :
    (items.mapM f).run source = items.mapM fun item => (f item).run source := by
  induction items with
  | nil => rfl
  | cons item rest ih =>
    simp only [List.mapM_cons, run_bind, ih, run_pure]
    rfl

end Run

/-! ## What a computation may ask -/

/-- Whatever the answers are, only allowed keys are asked for. -/
def OnlyAsks (allowed : κ → Prop) : Lookups κ β ε α → Prop
  | .ret _ => True
  | .raise _ => True
  | .ask key next => allowed key ∧ ∀ b, (next b).OnlyAsks allowed

section OnlyAsks

variable {allowed : κ → Prop}

theorem onlyAsks_pure (a : α) : (pure a : Lookups κ β ε α).OnlyAsks allowed := trivial

theorem onlyAsks_raise (e : ε) : (raise e : Lookups κ β ε α).OnlyAsks allowed := trivial

theorem onlyAsks_fetch {key : κ} (h : allowed key) :
    (fetch key : Lookups κ β ε β).OnlyAsks allowed := ⟨h, fun _ => trivial⟩

theorem OnlyAsks.bind {x : Lookups κ β ε α} {f : α → Lookups κ β ε α'} (hx : x.OnlyAsks allowed)
    (hf : ∀ a, (f a).OnlyAsks allowed) : (x >>= f).OnlyAsks allowed := by
  change (x.bind f).OnlyAsks allowed
  induction x with
  | ret a => exact hf a
  | raise e => trivial
  | ask key next ih => exact ⟨hx.1, fun b => ih b (hx.2 b)⟩

theorem onlyAsks_mapM {f : γ → Lookups κ β ε α} {items : List γ}
    (h : ∀ item ∈ items, (f item).OnlyAsks allowed) : (items.mapM f).OnlyAsks allowed := by
  induction items with
  | nil => exact onlyAsks_pure _
  | cons item rest ih =>
    rw [List.mapM_cons]
    have hrest := ih fun item' hmem => h item' (List.mem_cons_of_mem _ hmem)
    exact (h item List.mem_cons_self).bind fun _ => hrest.bind fun _ => onlyAsks_pure _

/-- The questions of the plain run are allowed. -/
theorem OnlyAsks.of_mem_questions {source : κ → Except ε β} {x : Lookups κ β ε α}
    (h : x.OnlyAsks allowed) : ∀ key ∈ x.questions source, allowed key := by
  induction x with
  | ret a => simp [questions]
  | raise e => simp [questions]
  | ask key next ih =>
    rw [questions]
    cases source key with
    | error e => simpa using h.1
    | ok b => exact List.forall_mem_cons.2 ⟨h.1, ih b (h.2 b)⟩

end OnlyAsks

/-! ## The run with a cache -/

/-- The answers so far, and the keys that the source was asked for. -/
structure Session (κ β : Type) where
  cache : List (κ × β) := []
  asked : List κ := []

variable [DecidableEq κ]

/-- The cached answer for a key. -/
def Session.cached (session : Session κ β) (key : κ) : Option β :=
  (session.cache.find? (·.1 = key)).map (·.2)

section RunCached

variable (source : κ → Except ε β)

/-- One question: the cache answers it, or the source does and the cache keeps its answer. -/
def Session.lookup (session : Session κ β) (key : κ) : Session κ β × Except ε β :=
  match session.cached key with
  | some b => (session, .ok b)
  | none =>
    match source key with
    | .ok b => ({ cache := session.cache ++ [(key, b)], asked := session.asked ++ [key] }, .ok b)
    | .error e => ({ session with asked := session.asked ++ [key] }, .error e)

/-- Every question goes through the cache. -/
def runCached : Lookups κ β ε α → Session κ β → Session κ β × Except ε α
  | .ret a, session => (session, .ok a)
  | .raise e, session => (session, .error e)
  | .ask key next, session =>
    match session.lookup source key with
    | (session', .ok b) => (next b).runCached session'
    | (session', .error e) => (session', .error e)

end RunCached

variable {source : κ → Except ε β} {session : Session κ β}

/-- The cache holds answers of the source, one for each key that the source was asked for. -/
structure Session.Sound (source : κ → Except ε β) (session : Session κ β) : Prop where
  answers : ∀ entry ∈ session.cache, source entry.1 = .ok entry.2
  asked_eq : session.asked = session.cache.map (·.1)
  nodup : session.asked.Nodup

omit [DecidableEq κ] in
theorem Session.sound_empty : Session.Sound source ({} : Session κ β) where
  answers := by simp
  asked_eq := rfl
  nodup := List.nodup_nil

theorem Session.cached_eq_some {key : κ} {b : β} (h : session.cached key = some b) :
    (key, b) ∈ session.cache := by
  unfold cached at h
  rw [Option.map_eq_some_iff] at h
  obtain ⟨entry, hentry, rfl⟩ := h
  have hkey : entry.1 = key := by simpa using List.find?_some hentry
  exact hkey ▸ List.mem_of_find?_eq_some hentry

theorem Session.cached_eq_none {key : κ} (h : session.cached key = none) :
    key ∉ session.cache.map (·.1) := by
  unfold cached at h
  rw [Option.map_eq_none_iff, List.find?_eq_none] at h
  rw [List.mem_map]
  rintro ⟨entry, hentry, rfl⟩
  exact h entry hentry (by simp)

/-- What one question does: an answer is the source's, and the source hears of a key once. -/
theorem Session.lookup_spec (h : session.Sound source) (key : κ) :
    (session.lookup source key).2 = source key ∧
      (session.lookup source key).1.asked.Nodup ∧
      (∀ asked, asked ∈ (session.lookup source key).1.asked ↔
        asked ∈ session.asked ∨ asked = key) ∧
      (∀ b, source key = .ok b → (session.lookup source key).1.Sound source) := by
  unfold lookup
  cases hcached : session.cached key with
  | some b =>
    have hmem := cached_eq_some hcached
    have hkey : key ∈ session.asked := by
      rw [h.asked_eq]
      exact List.mem_map_of_mem hmem
    refine ⟨(h.answers _ hmem).symm, h.nodup, fun asked => ?_, fun _ _ => h⟩
    exact ⟨.inl, fun hasked => hasked.elim id fun heq => heq ▸ hkey⟩
  | none =>
    have hfresh : key ∉ session.asked := by
      rw [h.asked_eq]
      exact cached_eq_none hcached
    have hnodup : (session.asked ++ [key]).Nodup := by
      rw [← List.concat_eq_append]
      exact h.nodup.concat hfresh
    cases hsource : source key with
    | error e => exact ⟨rfl, hnodup, by simp, by simp⟩
    | ok b =>
      refine ⟨rfl, hnodup, by simp, fun _ _ => ⟨?_, by simp [h.asked_eq], hnodup⟩⟩
      intro entry hentry
      rcases List.mem_append.1 hentry with hentry | hentry
      · exact h.answers entry hentry
      · rw [List.mem_singleton.1 hentry]
        exact hsource

/-- The cached run answers as the plain one; the source is asked once for each key, and for the
keys of the plain run's questions. -/
theorem runCached_spec (h : session.Sound source) (x : Lookups κ β ε α) :
    (x.runCached source session).2 = x.run source ∧
      (x.runCached source session).1.asked.Nodup ∧
      ∀ key, key ∈ (x.runCached source session).1.asked ↔
        key ∈ session.asked ∨ key ∈ x.questions source := by
  induction x generalizing session with
  | ret a => exact ⟨rfl, h.nodup, by simp [runCached, questions]⟩
  | raise e => exact ⟨rfl, h.nodup, by simp [runCached, questions]⟩
  | ask key next ih =>
    obtain ⟨hanswer, hnodup, hasked, hsound⟩ := Session.lookup_spec h key
    rw [runCached]
    generalize session.lookup source key = reply at hanswer hnodup hasked hsound
    obtain ⟨session', answer⟩ := reply
    subst hanswer
    simp only [run, questions]
    cases hsource : source key with
    | error e =>
      exact ⟨rfl, hnodup, by simpa using hasked⟩
    | ok b =>
      obtain ⟨hresult, hnodup', hasked'⟩ := ih b (hsound b hsource)
      refine ⟨hresult, hnodup', fun asked => ?_⟩
      rw [hasked' asked, hasked asked, List.mem_cons, or_assoc]

end Lookups

end SchemaBrain.Base
