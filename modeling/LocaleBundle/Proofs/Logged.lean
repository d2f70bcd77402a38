import LocaleBundle.Logged
import Mathlib.Data.List.Forall2
import Mathlib.Tactic.Lemma

/-!
# Laws of jobs

Jobs are put one after the other as in any monad: values are passed on, and grouping does not
matter, for the state and the log as for the outcome.

`Keeps` says that a job keeps a property of the state, whether it succeeds or fails, and what the
values it returns are like. It holds of a job made of parts if it holds of the parts.

`Gives` says what the errors and the values of a job are like, from whatever state it starts.

`Agree` compares two runs: from related states two jobs lead to related states and end alike. A job
that agrees with itself makes no use of what the relation leaves open.

`Ends` says how a job ends from every state; a job that agrees with itself from any two states ends
in one way.

`outcome` is what a job leads to with the log left out: the outcome of a job made of parts is found
from the outcomes of the parts.

Computations without a state are taken apart in the same way.
-/

namespace LocaleBundle.Job

variable {σ α β γ : Type}

@[simp] lemma bind_of_ok (a : α) (next : α → Job σ β) : bind (ok a) next = next a := by
  funext s
  unfold bind ok
  simp only [List.nil_append]

/-- A part that succeeded is followed by the next, from the state that it left. -/
lemma bind_of_result_ok {job : Job σ α} {next : α → Job σ β} {s : σ} {a : α}
    (h : (job s).result = .ok a) : bind job next s =
      ⟨(next a (job s).state).state, (next a (job s).state).result,
        (job s).log ++ (next a (job s).state).log⟩ := by
  simp only [bind, h]

lemma bind_of_result_error {job : Job σ α} {next : α → Job σ β} {s : σ} {e : Error}
    (h : (job s).result = .error e) : bind job next s = ⟨(job s).state, .error e, (job s).log⟩ := by
  simp only [bind, h]

/-- A step without records that succeeded is followed by the next. -/
lemma bind_of_step_ok {job : Job σ α} {next : α → Job σ β} {s t : σ} {a : α}
    (h : job s = ⟨t, .ok a, []⟩) : bind job next s = next a t := by
  rw [bind_of_result_ok (a := a) (by rw [h]), h, List.nil_append]

lemma bind_of_step_error {job : Job σ α} {next : α → Job σ β} {s t : σ} {e : Error}
    (h : job s = ⟨t, .error e, []⟩) : bind job next s = ⟨t, .error e, []⟩ := by
  rw [bind_of_result_error (e := e) (by rw [h]), h]

/-- A computation without the state leaves it, and what is made of its value writes no records. -/
lemma bind_ofLogged_ofExcept (x : Logged α) (f : α → Except Error β) (s : σ) :
    bind (ofLogged x) (fun a => ofExcept (f a)) s = ⟨s, x.result >>= f, x.log⟩ := by
  unfold bind ofLogged
  cases x.result with
  | error e => rfl
  | ok a =>
    simp only [ofExcept, List.append_nil]
    rfl

lemma bind_ok_right (job : Job σ α) : bind job ok = job := by
  funext s
  unfold bind ok
  cases hstep : job s with
  | mk state result log =>
    cases result with
    | error e => rfl
    | ok a => simp only [List.append_nil]

lemma bind_assoc (job : Job σ α) (f : α → Job σ β) (g : β → Job σ γ) :
    bind (bind job f) g = bind job fun a => bind (f a) g := by
  funext s
  unfold bind
  cases hstep : job s with
  | mk state result log =>
    cases result with
    | error e => rfl
    | ok a =>
      simp only
      cases hnext : f a state with
      | mk state' result' log' =>
        cases result' with
        | error e => rfl
        | ok b => simp only [List.append_assoc]

/-- Items in two parts are done one part after the other. -/
lemma forEach_append (items more : List α) (job : α → Job σ β) :
    forEach (items ++ more) job =
      bind (forEach items job) fun bs => bind (forEach more job) fun cs => ok (bs ++ cs) := by
  induction items with
  | nil =>
    simp only [List.nil_append, forEach, bind_of_ok]
    exact (bind_ok_right _).symm
  | cons a items ih =>
    rw [List.cons_append, forEach, forEach, ih]
    simp only [bind_assoc, bind_of_ok, List.cons_append]

lemma ok_of_toOption {ε : Type} {x : Except ε α} {a : α} (h : x.toOption = some a) : x = .ok a := by
  cases x with
  | error e => exact absurd h (by simp [Except.toOption])
  | ok b => exact congrArg Except.ok (Option.some.inj h)

/-- A job in two parts returns if both parts do. -/
lemma exists_of_bind_result {job : Job σ α} {next : α → Job σ β} {s : σ} {b : β}
    (h : (bind job next s).result = .ok b) :
    ∃ a, (job s).result = .ok a ∧ (next a (job s).state).result = .ok b := by
  unfold bind at h
  cases hresult : (job s).result with
  | error e =>
    simp only [hresult] at h
    exact absurd h (by simp)
  | ok a =>
    simp only [hresult] at h
    exact ⟨a, rfl, h⟩

/-! ## Properties of the state -/

/-- From a state with `P` the job leads to one with `P`, and what it returns has `Q`. -/
def Keeps (P : σ → Prop) (Q : α → Prop) (job : Job σ α) : Prop :=
  ∀ s, P s → P (job s).state ∧ ∀ a, (job s).result = .ok a → Q a

variable {P : σ → Prop} {Q : α → Prop} {R : β → Prop}

/-- Nothing is asked of the job. -/
lemma keeps_true (job : Job σ α) : Keeps (fun _ => True) (fun _ => True) job :=
  fun _ _ => ⟨trivial, fun _ _ => trivial⟩

lemma keeps_ok {a : α} (ha : Q a) : Keeps P Q (ok a : Job σ α) := by
  intro s hs
  refine ⟨hs, fun b hb => ?_⟩
  rwa [← Except.ok.inj hb]

lemma keeps_fail (e : Error) : Keeps P Q (fail e : Job σ α) := by
  intro s hs
  exact ⟨hs, fun a ha => absurd ha (by simp [fail])⟩

lemma keeps_get : Keeps P P (get : Job σ σ) := by
  intro s hs
  refine ⟨hs, fun a ha => ?_⟩
  rwa [← Except.ok.inj ha]

lemma keeps_modify {f : σ → σ} (hf : ∀ s, P s → P (f s)) :
    Keeps P (fun _ => True) (modify f) := by
  intro s hs
  exact ⟨hf s hs, fun _ _ => trivial⟩

lemma keeps_record (level : LogLevel) (text : String) :
    Keeps P (fun _ => True) (record level text : Job σ Unit) := by
  intro s hs
  exact ⟨hs, fun _ _ => trivial⟩

lemma keeps_ofExcept {x : Except Error α} (hx : ∀ a, x = .ok a → Q a) :
    Keeps P Q (ofExcept x : Job σ α) := by
  intro s hs
  exact ⟨hs, hx⟩

lemma Keeps.bind {job : Job σ α} {next : α → Job σ β} (hjob : Keeps P Q job)
    (hnext : ∀ a, Q a → Keeps P R (next a)) : Keeps P R (Job.bind job next) := by
  intro s hs
  obtain ⟨hstate, hvalue⟩ := hjob s hs
  unfold Job.bind
  cases hresult : (job s).result with
  | error e =>
    -- the first part has failed, and its state stays
    simp only [hresult]
    exact ⟨hstate, fun b hb => absurd hb (by simp)⟩
  | ok a =>
    simp only [hresult]
    exact hnext a (hvalue a hresult) _ hstate

/-- A change of the state that makes `P` true, and then a job that keeps it. -/
lemma Keeps.after_modify {f : σ → σ} {next : Unit → Job σ β} {s : σ} (hnext : Keeps P R (next ()))
    (hs : P (f s)) : P (Job.bind (modify f) next s).state :=
  (hnext (f s) hs).1

/-- What the second part leaves alone is as the first part made it. -/
lemma state_bind_of_leaves {τ : Type} {f : σ → τ} {job : Job σ α} {next : α → Job σ β}
    (h : ∀ a s, f (next a s).state = f s) (s : σ) :
    f (Job.bind job next s).state = f (job s).state := by
  unfold Job.bind
  cases hresult : (job s).result with
  | error e => simp only [hresult]
  | ok a =>
    simp only [hresult]
    exact h a _

/-- A job on a part of the state that `P` says nothing about. -/
lemma keeps_within {τ : Type} {P : τ → Prop} {part : τ → σ} {put : τ → σ → τ} {job : Job σ α}
    (hput : ∀ t s, P t → P (put t s)) (hjob : Keeps (fun _ => True) Q job) :
    Keeps P Q (within part put job) := by
  intro t ht
  exact ⟨hput t _ ht, (hjob (part t) trivial).2⟩

lemma keeps_forEach {items : List α} {job : α → Job σ β} (h : ∀ a ∈ items, Keeps P R (job a)) :
    Keeps P (fun bs => ∀ b ∈ bs, R b) (forEach items job) := by
  induction items with
  | nil => exact keeps_ok (by simp)
  | cons a items ih =>
    have hrest := ih fun b hb => h b (List.mem_cons_of_mem a hb)
    unfold forEach
    refine (h a List.mem_cons_self).bind fun b hb => hrest.bind fun bs hbs => keeps_ok ?_
    exact List.forall_mem_cons.mpr ⟨hb, hbs⟩

/-- What `P` says of the items that are done and of the rest stays true with every step: a step that
returns has done its item, and one that fails has not. -/
def Advances (P : List α → List α → σ → Prop) (job : α → Job σ β) : Prop :=
  ∀ done a rest s, P done (a :: rest) s →
    (∀ b, (job a s).result = .ok b → P (done ++ [a]) rest (job a s).state) ∧
    ∀ e, (job a s).result = .error e → P done (a :: rest) (job a s).state

/-- A loop has done a first part of its items, and all of them if it returns. -/
lemma Advances.forEach {P : List α → List α → σ → Prop} {job : α → Job σ β} (h : Advances P job)
    {done items : List α} {s : σ} (hs : P done items s) :
    ∃ done rest, P done rest (forEach items job s).state ∧
      ((∃ bs, (forEach items job s).result = .ok bs) → rest = []) := by
  induction items generalizing done s with
  | nil => exact ⟨done, [], hs, fun _ => rfl⟩
  | cons a items ih =>
    obtain ⟨hdoes, hfails⟩ := h done a items s hs
    unfold Job.forEach Job.bind
    cases hfirst : (job a s).result with
    | error e =>
      -- the loop stops here
      simp only [hfirst]
      exact ⟨done, a :: items, hfails e hfirst, fun ⟨bs, hbs⟩ => absurd hbs (by simp)⟩
    | ok b =>
      obtain ⟨all, rest, hall, hreturns⟩ := ih (hdoes b hfirst)
      simp only [hfirst]
      cases hrest : (Job.forEach items job (job a s).state).result with
      | error e =>
        simp only
        exact ⟨all, rest, hall, fun ⟨bs, hbs⟩ => absurd hbs (by simp)⟩
      | ok bs =>
        simp only
        exact ⟨all, rest, hall, fun _ => hreturns ⟨bs, hrest⟩⟩

/-! ## Errors and values -/

/-- From every state, the job ends with an error that has `E` or a value that has `Q`. -/
def Gives (E : Error → Prop) (Q : α → Prop) (job : Job σ α) : Prop :=
  ∀ s, (∀ e, (job s).result = .error e → E e) ∧ ∀ a, (job s).result = .ok a → Q a

variable {E : Error → Prop}

lemma gives_ok {a : α} (ha : Q a) : Gives E Q (ok a : Job σ α) := by
  intro s
  refine ⟨fun e he => absurd he (by simp [ok]), fun b hb => ?_⟩
  rwa [← Except.ok.inj hb]

lemma gives_fail {e : Error} (he : E e) : Gives E Q (fail e : Job σ α) := by
  intro s
  refine ⟨fun e' he' => ?_, fun a ha => absurd ha (by simp [fail])⟩
  rwa [← Except.error.inj he']

lemma gives_ofExcept {x : Except Error α} (herror : ∀ e, x = .error e → E e)
    (hvalue : ∀ a, x = .ok a → Q a) : Gives E Q (ofExcept x : Job σ α) :=
  fun _ => ⟨herror, hvalue⟩

lemma Gives.bind {job : Job σ α} {next : α → Job σ β} (hjob : Gives E Q job)
    (hnext : ∀ a, Q a → Gives E R (next a)) : Gives E R (Job.bind job next) := by
  intro s
  obtain ⟨herror, hvalue⟩ := hjob s
  unfold Job.bind
  cases hresult : (job s).result with
  | error e =>
    simp only [hresult]
    refine ⟨fun e' he' => ?_, fun b hb => absurd hb (by simp)⟩
    rw [← Except.error.inj he']
    exact herror e hresult
  | ok a =>
    simp only [hresult]
    exact hnext a (hvalue a hresult) _

/-- A record is always written. -/
lemma Gives.after_record {next : Job σ β} (hnext : Gives E R next) (level : LogLevel)
    (text : String) : Gives E R (Job.bind (record level text) fun _ => next) := by
  intro s
  exact hnext s

lemma Gives.imp {E' : Error → Prop} {Q' : α → Prop} {job : Job σ α} (h : Gives E Q job)
    (herror : ∀ e, E e → E' e) (hvalue : ∀ a, Q a → Q' a) : Gives E' Q' job := by
  intro s
  exact ⟨fun e he => herror e ((h s).1 e he), fun a ha => hvalue a ((h s).2 a ha)⟩

/-- What is given for the items stands in their order. -/
lemma gives_forEach {items : List α} {job : α → Job σ β} {R : α → β → Prop}
    (h : ∀ a ∈ items, Gives E (R a) (job a)) :
    Gives E (fun bs => List.Forall₂ R items bs) (forEach items job) := by
  induction items with
  | nil => exact gives_ok .nil
  | cons a items ih =>
    have hrest := ih fun b hb => h b (List.mem_cons_of_mem a hb)
    unfold forEach
    exact (h a List.mem_cons_self).bind fun b hb => hrest.bind fun bs hbs =>
      gives_ok (.cons hb hbs)

/-! ## Two runs -/

/-- From states related by `R` the two jobs lead to states related by `R`, and both return the same
or fail alike. -/
def Agree (R : σ → σ → Prop) (job other : Job σ α) : Prop :=
  ∀ s t, R s t → R (job s).state (other t).state ∧ (job s).result = (other t).result

section

variable {R : σ → σ → Prop}

lemma agree_ok (a : α) : Agree R (ok a) (ok a) := fun _ _ h => ⟨h, rfl⟩

lemma agree_fail (e : Error) : Agree R (fail e : Job σ α) (fail e) := fun _ _ h => ⟨h, rfl⟩

lemma agree_ofExcept (x : Except Error α) : Agree R (ofExcept x) (ofExcept x) :=
  fun _ _ h => ⟨h, rfl⟩

lemma agree_record (level : LogLevel) (text : String) : Agree R (record level text) (record level text) :=
  fun _ _ h => ⟨h, rfl⟩

lemma agree_modify {f g : σ → σ} (hchange : ∀ s t, R s t → R (f s) (g t)) :
    Agree R (modify f) (modify g) := fun s t h => ⟨hchange s t h, rfl⟩

lemma Agree.bind {job other : Job σ α} {next next' : α → Job σ β} (hjob : Agree R job other)
    (hnext : ∀ a, Agree R (next a) (next' a)) : Agree R (Job.bind job next) (Job.bind other next') := by
  intro s t hst
  obtain ⟨hstate, hresult⟩ := hjob s t hst
  unfold Job.bind
  cases hleft : (job s).result with
  | error e =>
    -- both fail in the first part, and go no further
    have hright : (other t).result = .error e := hresult.symm.trans hleft
    simp only [hleft, hright]
    exact ⟨hstate, trivial⟩
  | ok a =>
    have hright : (other t).result = .ok a := hresult.symm.trans hleft
    simp only [hleft, hright]
    exact hnext a _ _ hstate

/-- What follows may look at the states as far as they are related. -/
lemma Agree.bind_get {next next' : σ → Job σ β} (h : ∀ s t, R s t → Agree R (next s) (next' t)) :
    Agree R (Job.bind get next) (Job.bind get next') := fun s t hst => h s t hst s t hst

lemma agree_forEach {items : List α} {job other : α → Job σ β}
    (h : ∀ a ∈ items, Agree R (job a) (other a)) : Agree R (forEach items job) (forEach items other) := by
  induction items with
  | nil => exact agree_ok []
  | cons a items ih =>
    have hrest := ih fun b hb => h b (List.mem_cons_of_mem a hb)
    unfold forEach
    exact (h a List.mem_cons_self).bind fun _ => hrest.bind fun _ => agree_ok _

end

/-! ## Jobs that end alike from every state -/

/-- From every state the job ends with `r`. -/
def Ends (r : Except Error α) (job : Job σ α) : Prop := ∀ s, (job s).result = r

/-- One run tells how such a job ends. -/
lemma Agree.ends {job : Job σ α} (h : Agree (fun _ _ => True) job job) {s : σ} {r : Except Error α}
    (hs : (job s).result = r) : Ends r job := fun t => (h t s trivial).2.trans hs

/-- What such a job gives, it gives from every state. -/
lemma Agree.gives {job : Job σ α} (h : Agree (fun _ _ => True) job job) :
    Gives (fun e => Ends (.error e) job) (fun a => Ends (.ok a) job) job := by
  intro s
  exact ⟨fun e he => h.ends he, fun a ha => h.ends ha⟩

lemma ends_ok (a : α) : Ends (.ok a) (ok a : Job σ α) := fun _ => rfl

lemma ends_ofExcept (x : Except Error α) : Ends x (ofExcept x : Job σ α) := fun _ => rfl

lemma Ends.unique {r r' : Except Error α} {job : Job σ α} {s : σ} (h : Ends r job)
    (hs : (job s).result = r') : r = r' := (h s).symm.trans hs

/-- A job that always returns the same value gives what the value is like. -/
lemma Ends.gives_ok {job : Job σ α} {a : α} (h : Ends (.ok a) job) (ha : Q a) : Gives E Q job := by
  intro s
  rw [h s]
  refine ⟨fun e he => absurd he (by simp), fun b hb => ?_⟩
  rwa [← Except.ok.inj hb]

lemma Ends.gives_error {job : Job σ α} {e : Error} (h : Ends (.error e) job) (he : E e) :
    Gives E Q job := by
  intro s
  rw [h s]
  refine ⟨fun e' he' => ?_, fun a ha => absurd ha (by simp)⟩
  rwa [← Except.error.inj he']

lemma Ends.bind {job : Job σ α} {next : α → Job σ β} {a : α} {r : Except Error β}
    (hjob : Ends (.ok a) job) (hnext : Ends r (next a)) : Ends r (Job.bind job next) := by
  intro s
  have hresult := hjob s
  unfold Job.bind
  simp only [hresult]
  exact hnext _

lemma Ends.bind_error {job : Job σ α} {next : α → Job σ β} {e : Error}
    (hjob : Ends (.error e) job) : Ends (.error e) (Job.bind job next) := by
  intro s
  have hresult := hjob s
  unfold Job.bind
  simp only [hresult]

lemma ends_forEach {items : List α} {job : α → Job σ β} (h : ∀ a ∈ items, ∃ b, Ends (.ok b) (job a)) :
    ∃ bs, Ends (.ok bs) (forEach items job) := by
  induction items with
  | nil => exact ⟨[], ends_ok []⟩
  | cons a items ih =>
    obtain ⟨⟨b, hb⟩, hitems⟩ := List.forall_mem_cons.mp h
    obtain ⟨bs, hbs⟩ := ih hitems
    refine ⟨b :: bs, ?_⟩
    unfold forEach
    exact hb.bind (hbs.bind (ends_ok (b :: bs)))

/-- The first item for which the job fails ends it. -/
lemma ends_forEach_error {before after : List α} {job : α → Job σ β} {a : α} {e : Error}
    (hbefore : ∀ b ∈ before, ∃ c, Ends (.ok c) (job b)) (ha : Ends (.error e) (job a)) :
    Ends (.error e) (forEach (before ++ a :: after) job) := by
  induction before with
  | nil =>
    unfold forEach
    exact ha.bind_error
  | cons b before ih =>
    obtain ⟨⟨c, hc⟩, hrest⟩ := List.forall_mem_cons.mp hbefore
    unfold forEach
    exact hc.bind (ih hrest).bind_error

/-! ## Outcomes -/

/-- The state that a job leads to and what it returns, without the log. -/
def outcome (job : Job σ α) (s : σ) : σ × Except Error α := ((job s).state, (job s).result)

variable {job : Job σ α} {next : α → Job σ β} {s s' s'' : σ} {a : α} {e : Error}

lemma outcome_of_result {r : Except Error α} (h : (job s).result = r) :
    outcome job s = ((job s).state, r) := by
  rw [outcome, h]

lemma outcome_bind_ok (h : outcome job s = (s', .ok a)) :
    outcome (bind job next) s = outcome (next a) s' := by
  obtain ⟨hstate, hresult⟩ := Prod.mk.inj h
  simp only [outcome, bind, hresult, hstate]

lemma outcome_bind_error (h : outcome job s = (s', .error e)) :
    outcome (bind job next) s = (s', .error e) := by
  obtain ⟨hstate, hresult⟩ := Prod.mk.inj h
  simp only [outcome, bind, hresult, hstate]

/-- A job in two parts that returns is made of two outcomes. -/
lemma exists_of_outcome_bind {b : β} (h : outcome (bind job next) s = (s', .ok b)) :
    ∃ a middle, outcome job s = (middle, .ok a) ∧ outcome (next a) middle = (s', .ok b) := by
  obtain ⟨a, hfirst, -⟩ := exists_of_bind_result (Prod.mk.inj h).2
  have hjob := outcome_of_result hfirst
  exact ⟨a, _, hjob, (outcome_bind_ok hjob).symm.trans h⟩

@[simp] lemma outcome_ok : outcome (ok a) s = (s, .ok a) := rfl

@[simp] lemma outcome_fail : outcome (fail e : Job σ α) s = (s, .error e) := rfl

@[simp] lemma outcome_bind_get {next : σ → Job σ β} :
    outcome (bind get next) s = outcome (next s) s := outcome_bind_ok rfl

@[simp] lemma outcome_bind_modify {f : σ → σ} {next : Unit → Job σ β} :
    outcome (bind (modify f) next) s = outcome (next ()) (f s) := outcome_bind_ok rfl

@[simp] lemma outcome_bind_record {level : LogLevel} {text : String} {next : Unit → Job σ β} :
    outcome (bind (record level text) next) s = outcome (next ()) s := outcome_bind_ok rfl

@[simp] lemma outcome_bind_ofExcept_ok : outcome (bind (ofExcept (.ok a)) next) s =
    outcome (next a) s := outcome_bind_ok rfl

@[simp] lemma outcome_bind_ofExcept_error : outcome (bind (ofExcept (.error e)) next) s =
    (s, .error e) := outcome_bind_error rfl

lemma outcome_within {τ : Type} {part : τ → σ} {put : τ → σ → τ} {t : τ} {result : Except Error α}
    (h : outcome job (part t) = (s, result)) : outcome (within part put job) t = (put t s, result) := by
  obtain ⟨hstate, hresult⟩ := Prod.mk.inj h
  simp only [outcome, within, hstate, hresult]

lemma outcome_forEach_cons {items : List α} {job : α → Job σ β} {b : β} {bs : List β}
    (hfirst : outcome (job a) s = (s', .ok b))
    (hrest : outcome (forEach items job) s' = (s'', .ok bs)) :
    outcome (forEach (a :: items) job) s = (s'', .ok (b :: bs)) := by
  rw [forEach, outcome_bind_ok hfirst, outcome_bind_ok hrest, outcome_ok]

/-- A run over some items that returns has run the job for the first, and then for the rest. -/
lemma exists_of_outcome_forEach_cons {items : List α} {job : α → Job σ β} {bs : List β}
    (h : outcome (forEach (a :: items) job) s = (s'', .ok bs)) :
    ∃ b cs middle, bs = b :: cs ∧ outcome (job a) s = (middle, .ok b) ∧
      outcome (forEach items job) middle = (s'', .ok cs) := by
  obtain ⟨b, middle, hfirst, hrest⟩ := exists_of_outcome_bind h
  obtain ⟨cs, last, hothers, hend⟩ := exists_of_outcome_bind hrest
  obtain ⟨rfl, hbs⟩ := Prod.mk.inj hend
  exact ⟨b, cs, middle, (Except.ok.inj hbs).symm, hfirst, hothers⟩

/-- A job that fails for an item keeps what was made of the items before it. -/
lemma outcome_forEach_error {before after : List α} {job : α → Job σ β} {bs : List β}
    (hbefore : outcome (forEach before job) s = (s', .ok bs))
    (hfails : outcome (job a) s' = (s'', .error e)) :
    outcome (forEach (before ++ a :: after) job) s = (s'', .error e) := by
  induction before generalizing s bs with
  | nil =>
    have hsame : s = s' := (Prod.mk.inj hbefore).1
    rw [List.nil_append, forEach, hsame, outcome_bind_error hfails]
  | cons b before ih =>
    rw [forEach] at hbefore
    obtain ⟨c, middle, hfirst, htail⟩ := exists_of_outcome_bind hbefore
    obtain ⟨cs, last, hrest, hlast⟩ := exists_of_outcome_bind htail
    have hsame : last = s' := (Prod.mk.inj hlast).1
    rw [hsame] at hrest
    rw [List.cons_append, forEach, outcome_bind_ok hfirst]
    exact outcome_bind_error (ih hrest)

end LocaleBundle.Job

namespace LocaleBundle.Logged

variable {α β : Type}

lemma record_bind (level : LogLevel) (text : String) (next : Unit → Logged α) :
    (record level text >>= next) = ⟨(next ()).result, ⟨level, text⟩ :: (next ()).log⟩ := rfl

/-- The second part gives the result unless the first fails. -/
lemma result_bind (x : Logged α) (next : α → Logged β) :
    (x >>= next).result = x.result >>= fun a => (next a).result := by
  simp only [Bind.bind, Logged.bind, Except.bind]
  cases x.result with
  | error e => rfl
  | ok a => rfl

/-- A computation in two parts returns if both parts do. -/
lemma exists_of_bind_result {x : Logged α} {next : α → Logged β} {b : β}
    (h : (x >>= next).result = .ok b) : ∃ a, x.result = .ok a ∧ (next a).result = .ok b := by
  cases hx : x.result with
  | error e =>
    simp only [Bind.bind, Logged.bind, hx] at h
    exact absurd h (by simp)
  | ok a =>
    simp only [Bind.bind, Logged.bind, hx] at h
    exact ⟨a, rfl, h⟩

end LocaleBundle.Logged
