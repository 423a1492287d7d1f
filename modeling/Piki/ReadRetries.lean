import Piki.CustomerOrders

/-! `BuenPickClient._request` with its sleeps and with every kind of body a response can
have. It follows the plain specification of its retries unless the response that ends them
has JSON that is nested too deeply to be decoded. -/
namespace Piki.BuenPickClient

/-- What `response.json()` and `model_validate` make of a body: the model, one of the errors
that are caught, or the `RecursionError` of too deeply nested JSON. -/
inductive Payload (α : Type)
  | valid (model : α)
  | invalid
  | tooDeep
  deriving DecidableEq, Repr

inductive Outcome (α : Type)
  | timeout
  | requestError
  | response (statusCode : ℕ) (payload : Payload α)
  deriving DecidableEq, Repr

/-- What a call does: a GET, or a sleep of so many tenths of a second. -/
inductive Event
  | get (request : GetRequest)
  | sleep (tenths : ℕ)
  deriving DecidableEq, Repr

/-- What leaves the call: its own error, the `RecursionError`, or the assertion after the
loop. -/
inductive FetchError
  | client (e : BuenPickClientError)
  | recursion
  | exhausted
  deriving DecidableEq, Repr

structure Fetch (α : Type) where
  events : List Event
  result : Except FetchError α
  deriving DecidableEq, Repr

/-- `response.is_error`. -/
def isError (statusCode : ℕ) : Bool := decide (400 ≤ statusCode ∧ statusCode ≤ 599)

section
variable {α : Type}

/-- One more attempt after a sleep. -/
def Fetch.after (get : GetRequest) (attempt : ℕ) (rest : Fetch α) : Fetch α :=
  ⟨.get get :: .sleep (2 ^ (attempt - 1)) :: rest.events, rest.result⟩

/-- The attempts from `attempt` on. -/
def fetchFrom (maxAttempts : ℕ) (transport : ℕ → Outcome α) (get : GetRequest) :
    (attempt remaining : ℕ) → Fetch α
  | _, 0 => ⟨[], .error .exhausted⟩
  | attempt, remaining + 1 =>
    match transport attempt with
    | .timeout =>
      if attempt < maxAttempts then
        (fetchFrom maxAttempts transport get (attempt + 1) remaining).after get attempt
      else ⟨[.get get], .error (.client .timedOut)⟩
    | .requestError => ⟨[.get get], .error (.client .requestFailed)⟩
    | .response statusCode payload =>
      if statusCode ∈ [429, 500, 503] ∧ attempt < maxAttempts then
        (fetchFrom maxAttempts transport get (attempt + 1) remaining).after get attempt
      else if isError statusCode then ⟨[.get get], .error (.client (.httpStatus statusCode))⟩
      else match payload with
        | .valid model => ⟨[.get get], .ok model⟩
        | .invalid => ⟨[.get get], .error (.client .invalidResponse)⟩
        | .tooDeep => ⟨[.get get], .error .recursion⟩

/-- `_request`: attempt `i` has the outcome `transport i`. -/
def fetch (settings : Settings) (transport : ℕ → Outcome α) (get : GetRequest) : Fetch α :=
  fetchFrom settings.maxAttempts transport get 1 settings.maxAttempts

/-- A timeout, or a response with status 429, 500 or 503. -/
def transient : Outcome α → Bool
  | .timeout => true
  | .requestError => false
  | .response statusCode _ => decide (statusCode ∈ [429, 500, 503])

/-- The position, from one, of the first outcome that is not transient. -/
noncomputable def firstFinal (transport : ℕ → Outcome α) : ℕ∞ :=
  sInf {k | ∃ i : ℕ, 1 ≤ i ∧ transient (transport i) = false ∧ k = i}

/-- `n` attempts from `attempt` on, with one sleep between two of them. -/
def schedule (get : GetRequest) : (attempt n : ℕ) → List Event
  | _, 0 => []
  | _, 1 => [.get get]
  | attempt, n + 2 =>
    .get get :: .sleep (2 ^ (attempt - 1)) :: schedule get (attempt + 1) (n + 1)

/-- The code that the last outcome calls for when there is no model to return. -/
def expectedCode : Outcome α → ToolErrorCode
  | .timeout => .timeout
  | .requestError => .upstreamUnavailable
  | .response statusCode _ =>
    if isError statusCode then
      if statusCode = 400 then .badRequest else if statusCode = 401 then .unauthorized
      else if statusCode = 404 then .notFound else if statusCode = 429 then .rateLimited
      else .upstreamUnavailable
    else .internalError

/-- The last outcome is a non-error response whose JSON validates. -/
def Validated (o : Outcome α) (model : α) : Prop :=
  ∃ statusCode, o = .response statusCode (.valid model) ∧ isError statusCode = false

/-- The specification of a call: as many GETs as positions up to the first final outcome,
at most `max_attempts`, a sleep between two of them, and the result of the last outcome. -/
structure Follows (settings : Settings) (transport : ℕ → Outcome α) (get : GetRequest)
    (call : Fetch α) : Prop where
  attempts : ∃ n : ℕ, 1 ≤ n ∧ (n : ℕ∞) = min (firstFinal transport) settings.maxAttempts ∧
    call.events = schedule get 1 n ∧
    (∀ model, call.result = .ok model ↔ Validated (transport n) model) ∧
    ((¬ ∃ model, Validated (transport n) model) → ∃ e, call.result = .error (.client e) ∧
      e.code = expectedCode (transport n))
  not_exhausted : call.result ≠ .error .exhausted

/-- How the loop ends on an outcome that is not retried. -/
def conclude : Outcome α → Except FetchError α
  | .timeout => .error (.client .timedOut)
  | .requestError => .error (.client .requestFailed)
  | .response statusCode payload =>
    if isError statusCode then .error (.client (.httpStatus statusCode))
    else match payload with
      | .valid model => .ok model
      | .invalid => .error (.client .invalidResponse)
      | .tooDeep => .error .recursion

theorem fetchFrom_step (maxAttempts : ℕ) (transport : ℕ → Outcome α) (get : GetRequest)
    (attempt remaining : ℕ) :
    fetchFrom maxAttempts transport get attempt (remaining + 1) =
      if transient (transport attempt) = true ∧ attempt < maxAttempts then
        (fetchFrom maxAttempts transport get (attempt + 1) remaining).after get attempt
      else ⟨[.get get], conclude (transport attempt)⟩ := by
  rw [fetchFrom]
  cases transport attempt with
  | timeout => simp [transient, conclude]
  | requestError => simp [transient, conclude]
  | response statusCode payload =>
    simp only [transient, decide_eq_true_eq, conclude]
    split_ifs with hretry herror
    · rfl
    · rfl
    · cases payload <;> rfl

/-- The attempts are those of the bounded retry loop. -/
theorem fetchFrom_eq {maxAttempts : ℕ} (transport : ℕ → Outcome α) (get : GetRequest)
    {attempt remaining : ℕ} (h : attempt + remaining = maxAttempts + 1) :
    fetchFrom maxAttempts transport get attempt remaining =
      ⟨schedule get attempt (Retrying.loop transient transport attempt remaining).1,
        match (Retrying.loop transient transport attempt remaining).2 with
        | some outcome => conclude outcome
        | none => .error .exhausted⟩ := by
  induction remaining generalizing attempt with
  | zero => rfl
  | succ remaining ih =>
    have hmore : attempt < maxAttempts ↔ 0 < remaining := by omega
    rw [fetchFrom_step, Retrying.loop]
    by_cases hretry : transient (transport attempt) = true ∧ attempt < maxAttempts
    · have hpos : 0 < remaining := hmore.mp hretry.2
      obtain ⟨outcome, -, hcount⟩ :=
        Retrying.loop_ends transient transport (attempt + 1) hpos
      obtain ⟨n, hn⟩ := Nat.exists_eq_add_of_lt hcount
      rw [if_pos hretry, if_pos (by simp [hretry.1, hpos]), ih (by omega)]
      simp only [Fetch.after, hn, Nat.zero_add]
      rfl
    · have hstop : ¬ (transient (transport attempt) && decide (0 < remaining)) = true := by
        rw [Bool.and_eq_true, decide_eq_true_eq, ← hmore]
        exact hretry
      rw [if_neg hretry, if_neg hstop]
      rfl

/-- The timeout of the last attempt is raised. -/
example : fetchFrom 2 (fun _ => (.timeout : Outcome String)) ⟨"picks", []⟩ 1 2 =
    ⟨[.get ⟨"picks", []⟩, .sleep 1, .get ⟨"picks", []⟩], .error (.client .timedOut)⟩ := by
  decide +kernel

theorem conclude_ok_iff {o : Outcome α} {model : α} :
    conclude o = .ok model ↔ Validated o model := by
  cases o with
  | timeout => simp [conclude, Validated]
  | requestError => simp [conclude, Validated]
  | response statusCode payload =>
    cases herror : isError statusCode <;> cases payload <;>
      simp [conclude, Validated, herror]

/-- A response that is no error and has JSON nested too deeply. -/
def TooDeep (o : Outcome α) : Prop :=
  ∃ statusCode, o = .response statusCode .tooDeep ∧ isError statusCode = false

theorem conclude_code_iff {o : Outcome α} (h : ¬ ∃ model, Validated o model) :
    (∃ e, conclude o = .error (.client e) ∧ e.code = expectedCode o) ↔ ¬ TooDeep o := by
  cases o with
  | timeout => simp [conclude, TooDeep, expectedCode, BuenPickClientError.code]
  | requestError => simp [conclude, TooDeep, expectedCode, BuenPickClientError.code]
  | response statusCode payload =>
    cases herror : isError statusCode with
    | true => simp [conclude, TooDeep, expectedCode, BuenPickClientError.code, herror]
    | false =>
      cases payload with
      | valid model => exact absurd ⟨model, statusCode, rfl, herror⟩ h
      | invalid => simp [conclude, TooDeep, expectedCode, BuenPickClientError.code, herror]
      | tooDeep => simp [conclude, TooDeep, herror]

theorem TooDeep.not_transient {o : Outcome α} (h : TooDeep o) : transient o = false := by
  obtain ⟨statusCode, rfl, herror⟩ := h
  simp only [transient, decide_eq_false_iff_not]
  intro hmem
  simp only [List.mem_cons, List.not_mem_nil, or_false] at hmem
  rcases hmem with rfl | rfl | rfl <;> exact absurd herror (by decide)

/-- The decisive attempt is the first final one, or the last. -/
theorem decisive_min {transport : ℕ → Outcome α} {maxAttempts n : ℕ}
    (h : Retrying.Decisive transient transport 1 maxAttempts n) :
    (n : ℕ∞) = min (firstFinal transport) maxAttempts := by
  have hlast := h.last
  have hle : (n : ℕ∞) ≤ firstFinal transport := by
    refine le_sInf ?_
    rintro k ⟨i, hi, hfinal, rfl⟩
    by_contra hlt
    have hlt : i < n := by exact_mod_cast not_le.mp hlt
    have hretried := h.before i hi hlt
    rw [hfinal] at hretried
    cases hretried
  refine le_antisymm (le_min hle (by exact_mod_cast (by omega : n ≤ maxAttempts))) ?_
  cases hfinal : transient (transport n) with
  | false => exact (min_le_left _ _).trans (sInf_le ⟨n, h.first, hfinal, rfl⟩)
  | true =>
    have hend := h.ends hfinal
    exact (min_le_right _ _).trans (by exact_mod_cast (by omega : maxAttempts ≤ n))

/-- The call makes the attempts up to the decisive one and ends as its outcome says. -/
theorem fetch_decisive (settings : Settings) (transport : ℕ → Outcome α) (get : GetRequest) :
    ∃ n, Retrying.Decisive transient transport 1 settings.maxAttempts n ∧
      fetch settings transport get = ⟨schedule get 1 n, conclude (transport n)⟩ := by
  obtain ⟨n, hn, hreply, hcount⟩ :=
    Retrying.loop_spec transient transport 1 settings.positive
  have hattempts : (Retrying.loop transient transport 1 settings.maxAttempts).1 = n := by omega
  refine ⟨n, hn, ?_⟩
  rw [fetch, fetchFrom_eq transport get (by omega), hreply, hattempts]

/-- No attempt that is made gets a response that is no error and is nested too deeply. -/
def Decodable (settings : Settings) (transport : ℕ → Outcome α) : Prop :=
  ∀ k, 1 ≤ k → k ≤ settings.maxAttempts →
    (∀ j, 1 ≤ j → j < k → transient (transport j) = true) → ¬ TooDeep (transport k)

theorem decodable_iff {settings : Settings} {transport : ℕ → Outcome α} {n : ℕ}
    (hn : Retrying.Decisive transient transport 1 settings.maxAttempts n) :
    Decodable settings transport ↔ ¬ TooDeep (transport n) := by
  constructor
  · intro h
    have hlast := hn.last
    exact h n hn.first (by omega) hn.before
  · intro h k hfirst hlast hbefore hdeep
    have hk : Retrying.Decisive transient transport 1 settings.maxAttempts k := by
      refine ⟨hfirst, by omega, hbefore, ?_⟩
      intro hretried
      rw [hdeep.not_transient] at hretried
      cases hretried
    rw [hk.unique hn] at hdeep
    exact h hdeep

/-- The reads of the client follow the specification of their retries if and only if no
response that is read is nested too deeply to be decoded. -/
theorem fetch_follows_iff (settings : Settings) (transport : ℕ → Outcome α) (get : GetRequest) :
    Follows settings transport get (fetch settings transport get) ↔
      Decodable settings transport := by
  obtain ⟨n, hn, hfetch⟩ := fetch_decisive settings transport get
  have hmin := decisive_min hn
  rw [decodable_iff hn, hfetch]
  constructor
  · rintro ⟨⟨n', -, hmin', -, -, hcode⟩, -⟩ hdeep
    have hsame : n' = n := by exact_mod_cast hmin'.trans hmin.symm
    rw [hsame] at hcode
    have hnone : ¬ ∃ model, Validated (transport n) model := by
      obtain ⟨statusCode, ho, -⟩ := hdeep
      rintro ⟨model, other, hvalid, -⟩
      rw [ho] at hvalid
      cases hvalid
    exact (conclude_code_iff hnone).mp (hcode hnone) hdeep
  · intro hdeep
    refine ⟨⟨n, hn.first, hmin, rfl, fun model => conclude_ok_iff, ?_⟩, ?_⟩
    · intro hnone
      exact (conclude_code_iff hnone).mpr hdeep
    · by_cases hsome : ∃ model, Validated (transport n) model
      · obtain ⟨model, hmodel⟩ := hsome
        simp [conclude_ok_iff.mpr hmodel]
      · obtain ⟨e, he, -⟩ := (conclude_code_iff hsome).mpr hdeep
        simp [he]

/-- An outcome whose body was decoded. -/
def Outcome.ofGet : GetOutcome α → Outcome α
  | .timeout => .timeout
  | .requestError => .requestError
  | .response statusCode (some model) => .response statusCode (.valid model)
  | .response statusCode none => .response statusCode .invalid

theorem transient_ofGet (o : GetOutcome α) : transient (.ofGet o) = retryable o := by
  rcases o with _ | _ | ⟨statusCode, _ | model⟩ <;> rfl

theorem conclude_ofGet (o : GetOutcome α) :
    conclude (.ofGet o) = (settle o).mapError .client := by
  rcases o with _ | _ | ⟨statusCode, _ | model⟩
  · rfl
  · rfl
  · by_cases h : 400 ≤ statusCode ∧ statusCode ≤ 599 <;>
      simp [Outcome.ofGet, conclude, settle, isError, h, Except.mapError]
  · by_cases h : 400 ≤ statusCode ∧ statusCode ≤ 599 <;>
      simp [Outcome.ofGet, conclude, settle, isError, h, Except.mapError]

/-- On bodies that can be decoded the call is the one without sleeps. -/
theorem fetch_ofGet (settings : Settings) (transport : ℕ → GetOutcome α) (get : GetRequest) :
    ∃ n, (request settings transport get).requests = List.replicate n get ∧
      (request settings transport get).result = (settle (transport n)).mapError .client ∧
      fetch settings (fun i => .ofGet (transport i)) get =
        ⟨schedule get 1 n, (settle (transport n)).mapError .client⟩ := by
  obtain ⟨n, hn, hfetch⟩ := fetch_decisive settings (fun i => .ofGet (transport i)) get
  obtain ⟨k, hk, hreply, hcount⟩ :=
    Retrying.loop_spec retryable transport 1 settings.positive
  have hsame : Retrying.Decisive transient (fun i => .ofGet (transport i)) 1 settings.maxAttempts
      k := by
    refine ⟨hk.first, hk.last, ?_, ?_⟩
    · intro j hj hjk
      rw [transient_ofGet]
      exact hk.before j hj hjk
    · intro hretried
      rw [transient_ofGet] at hretried
      exact hk.ends hretried
  obtain rfl : n = k := hn.unique hsame
  have hattempts : (Retrying.loop retryable transport 1 settings.maxAttempts).1 = n := by omega
  refine ⟨n, ?_, ?_, ?_⟩
  · rw [request, hattempts]
  · rw [request, hreply]
  · rw [hfetch, conclude_ofGet]

end

/-- A response that decoding gives up on, as the body of a hundred thousand brackets. -/
def deepReply (_ : ℕ) : Outcome String := .response 200 .tooDeep

theorem deepAttempts_positive : 0 < 3 := by decide

def deepCall : Fetch String := fetch ⟨3, deepAttempts_positive⟩ deepReply ⟨"picks/search", []⟩

theorem deep_reply_escapes : deepCall = ⟨[.get ⟨"picks/search", []⟩], .error .recursion⟩ ∧
    ¬ Follows ⟨3, by decide⟩ deepReply ⟨"picks/search", []⟩ deepCall := by
  have hcall : deepCall = ⟨[.get ⟨"picks/search", []⟩], .error .recursion⟩ := by decide
  refine ⟨hcall, ?_⟩
  rintro ⟨⟨n, -, -, -, -, hcode⟩, -⟩
  have hnone : ¬ ∃ model, Validated (deepReply n) model := by
    rintro ⟨model, statusCode, hvalid, -⟩
    cases hvalid
  obtain ⟨e, he, -⟩ := hcode hnone
  rw [hcall] at he
  cases he

end Piki.BuenPickClient
