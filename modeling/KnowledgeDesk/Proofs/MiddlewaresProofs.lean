import KnowledgeDesk.Middlewares
import Mathlib.Algebra.Ring.Nat

/-!
# What the middlewares do to an application

Whatever the application is, behind the body limit it runs as it would on a request that is cut off at the
limit, and its responses start with the security headers, as does the one it is refused with.
-/

namespace KnowledgeDesk.Proofs

open Interactive

variable {σ : Type} {maxBytes : Int} {scope : AsgiScope}

/-! ## The body limit -/

section

open BodySizeLimit

theorem wraps_counting (maxBytes : Int) (app : AsgiApp σ) :
    Wraps (countingReceive maxBytes) id State.counting (BodySizeLimit.program maxBytes app) app := by
  intro s received
  simp only [BodySizeLimit.program]
  cases app s <;> rfl

/-- The bytes of body in a message. -/
def bodySize : Received → Nat
  | .request body _ => body.length
  | _ => 0

/-- The bytes of body in some messages. -/
def bodyBytes (ms : List Received) : Nat := (ms.map bodySize).sum

/-- What is handed on of a message that comes after the limit. -/
def cutOff : Received → Received
  | .request _ _ => .disconnect
  | m => m

theorem bodyBytes_append (ms ms' : List Received) : bodyBytes (ms ++ ms') = bodyBytes ms + bodyBytes ms' := by
  rw [bodyBytes, List.map_append, List.sum_append, bodyBytes, bodyBytes]

theorem bodyBytes_cutOff (ms : List Received) : bodyBytes (ms.map cutOff) = 0 := by
  induction ms with
  | nil => rfl
  | cons m ms ih =>
    rw [bodyBytes] at ih ⊢
    cases m <;> simpa [cutOff, bodySize] using ih

/-- Once the limit is passed nothing is handed on but the ends of what was sent. -/
theorem transduce_of_lt {received : Nat} (h : maxBytes < received) (ms : List Received) :
    transduce (countingReceive maxBytes) received ms = ms.map cutOff := by
  induction ms generalizing received with
  | nil => rfl
  | cons m ms ih =>
    cases m with
    | request body moreBody =>
      have hlater : maxBytes < (received + body.length : Nat) := by omega
      simp only [transduce, countingReceive, gt_iff_lt, hlater, if_true, ih hlater, List.map_cons, cutOff]
    | disconnect | other type => simp only [transduce, countingReceive, ih h, List.map_cons, cutOff]

/-- The messages that are handed on whole are as many as fit. -/
theorem transduce_eq (maxBytes : Int) (received : Nat) (ms : List Received) : ∃ k ≤ ms.length,
    transduce (countingReceive maxBytes) received ms = ms.take k ++ (ms.drop k).map cutOff ∧
      (bodyBytes (ms.take k) = 0 ∨ (received + bodyBytes (ms.take k) : Nat) ≤ maxBytes) ∧
      (k < ms.length → maxBytes < (received + bodyBytes (ms.take (k + 1)) : Nat)) := by
  induction ms generalizing received with
  | nil => exact ⟨0, Nat.le_refl 0, rfl, .inl rfl, fun h => absurd h (Nat.lt_irrefl 0)⟩
  | cons m ms ih =>
    by_cases hfits : ∀ body moreBody, m = .request body moreBody → (received + body.length : Nat) ≤ maxBytes
    · have hm : countingReceive maxBytes received m = (received + bodySize m, m) ∧
          (bodySize m = 0 ∨ (received + bodySize m : Nat) ≤ maxBytes) := by
        cases m with
        | request body moreBody =>
          have hle := hfits body moreBody rfl
          exact ⟨if_neg (Int.not_lt.2 hle), .inr hle⟩
        | disconnect | other type => exact ⟨rfl, .inl rfl⟩
      obtain ⟨k, hk, hall, hle, hlt⟩ := ih (received + bodySize m)
      refine ⟨k + 1, Nat.succ_le_succ hk, ?_, ?_, fun h => ?_⟩
      · simp only [transduce, hm.1, hall, List.take_succ_cons, List.drop_succ_cons, List.cons_append]
      · simp only [bodyBytes, List.take_succ_cons, List.map_cons, List.sum_cons] at hle ⊢
        omega
      · have hlt := hlt (Nat.lt_of_succ_lt_succ h)
        simp only [bodyBytes, List.take_succ_cons, List.map_cons, List.sum_cons] at hlt ⊢
        omega
    · simp only [not_forall, Int.not_le] at hfits
      obtain ⟨body, moreBody, rfl, hover⟩ := hfits
      refine ⟨0, Nat.zero_le _, ?_, .inl rfl, fun _ => ?_⟩
      · simp only [transduce, countingReceive, gt_iff_lt, hover, if_true, transduce_of_lt hover, List.take_zero,
          List.drop_zero, List.nil_append, List.map_cons, cutOff]
      · simpa [bodyBytes, bodySize] using hover

end

/-! ## The security headers -/

section

open SecurityHeaders

theorem wraps_securityHeaders (app : AsgiApp σ) (hhttp : scope.type = "http") :
    Wraps (fun _ m => ((), m)) (withHeaders scope) (fun s (_ : Unit) => s) (SecurityHeaders.program scope app) app := by
  intro s _
  simp only [SecurityHeaders.program]
  cases app s <;> simp [hhttp]

theorem transduce_id {In : Type} (ms : List In) : transduce (fun (_ : Unit) m => ((), m)) () ms = ms := by
  induction ms with
  | nil => rfl
  | cons m ms ih => rw [transduce, ih]

/-- The headers a response is to have that it does not have. -/
def headersMissing (scope : AsgiScope) (hs : Headers) : Headers :=
  headers.filter fun h => !decide (h.1 = "content-security-policy" ∧ scope.path ∈ cspExempt) && (hs.lookup h.1).isNone

/-- A response starts with what the application has set, and with the headers it has not. -/
theorem withHeaders_start (scope : AsgiScope) (status : Nat) (hs : Headers) :
    withHeaders scope (.start status hs) = .start status (hs ++ headersMissing scope hs) := by
  suffices h : ∀ (skip : String → Prop) [DecidablePred skip] (added hs : Headers), (added.map Prod.fst).Nodup →
      added.foldl (fun hs h => if skip h.1 then hs else setdefault hs h.1 h.2) hs
        = hs ++ added.filter fun h => !decide (skip h.1) && (hs.lookup h.1).isNone from
    congrArg (Sent.start status)
      (h (fun name => name = "content-security-policy" ∧ scope.path ∈ cspExempt) headers hs (by decide))
  intro skip _ added
  induction added with
  | nil => exact fun hs _ => (List.append_nil hs).symm
  | cons h added ih =>
    intro hs hnodup
    obtain ⟨hfresh, hnodup⟩ := List.nodup_cons.1 hnodup
    rw [List.foldl_cons]
    by_cases hskip : skip h.1
    · rw [if_pos hskip, ih hs hnodup]
      simp [hskip]
    · rw [if_neg hskip]
      cases hlookup : hs.lookup h.1 with
      | some value =>
        rw [setdefault, hlookup, if_pos Option.isSome_some, ih hs hnodup]
        simp [hlookup]
      | none =>
        -- the header added is not among those that follow
        have hsame : ∀ h' ∈ added, (hs ++ [(h.1, h.2)]).lookup h'.1 = hs.lookup h'.1 := by
          intro h' hh'
          have hne : (h'.1 == h.1) = false := beq_eq_false_iff_ne.2 fun he =>
            hfresh (he ▸ List.mem_map_of_mem hh')
          simp only [List.lookup_append, List.lookup_cons, hne, List.lookup_nil, Option.or_none]
        rw [setdefault, hlookup, if_neg (by simp), ih _ hnodup, List.filter_congr fun h' hh' => by rw [hsame h' hh']]
        simp [hskip, hlookup]

end

/-! ## Both -/

theorem stack_rejecting (app : AsgiApp σ) (n : Nat) (left : List Sent) (ms : List Received)
    (hhttp : scope.type = "http") : exec (stack maxBytes scope app) n (.rejecting left) ms
      = (.rejecting (left.drop n), ms, (left.take n).map fun m => some (SecurityHeaders.withHeaders scope m)) := by
  induction n generalizing left with
  | zero => rfl
  | succ n ih =>
    cases left with
    | nil => rfl
    | cons m left =>
      have hstep : stack maxBytes scope app (.rejecting (m :: left))
          = .send (SecurityHeaders.withHeaders scope m) (.rejecting left) := by
        simp [stack, SecurityHeaders.program, BodySizeLimit.program, hhttp]
      simp only [exec, hstep, ih left, List.drop_succ_cons, List.take_succ_cons, List.map_cons]

theorem stack_counting (maxBytes : Int) (app : AsgiApp σ) (s : σ) (n : Nat) (ms : List Received)
    (hhttp : scope.type = "http") :
    (exec (stack maxBytes scope app) n (.counting s 0) ms).2.2
      = (exec app n s (transduce (BodySizeLimit.countingReceive maxBytes) 0 ms)).2.2.map
          (·.map (SecurityHeaders.withHeaders scope)) := by
  have houter := (wraps_securityHeaders (BodySizeLimit.program maxBytes app) hhttp).exec n (.counting s 0) () ms
  have hinner := (wraps_counting maxBytes app).exec n s 0 ms
  rw [transduce_id, hinner] at houter
  simpa [stack] using houter

theorem exec_stack_refused (app : AsgiApp σ) (s : σ) (n : Nat) (ms : List Received) (hhttp : scope.type = "http")
    (hlarge : BodySizeLimit.declaresTooLarge maxBytes scope = true) :
    (exec (stack maxBytes scope app) n (BodySizeLimit.call maxBytes scope s) ms).2
      = (ms, (BodySizeLimit.reject.take n).map fun m => some (SecurityHeaders.withHeaders scope m)) := by
  rw [BodySizeLimit.call, if_neg (not_not.2 hhttp), if_pos hlarge, stack_rejecting app n _ ms hhttp]

theorem exec_stack_served (app : AsgiApp σ) (s : σ) (n : Nat) (ms : List Received) (hhttp : scope.type = "http")
    (hsmall : BodySizeLimit.declaresTooLarge maxBytes scope = false) :
    ∃ k ≤ ms.length, ∃ seen, seen = ms.take k ++ (ms.drop k).map cutOff ∧
      (bodyBytes seen = 0 ∨ (bodyBytes seen : Int) ≤ maxBytes) ∧
      (k < ms.length → maxBytes < bodyBytes (ms.take (k + 1))) ∧
      (exec (stack maxBytes scope app) n (BodySizeLimit.call maxBytes scope s) ms).2
        = (ms.drop ((exec app n s seen).2.2.countP (·.isNone)),
          (exec app n s seen).2.2.map (·.map (SecurityHeaders.withHeaders scope))) := by
  obtain ⟨k, hk, hseen, hle, hlt⟩ := transduce_eq maxBytes 0 ms
  have hbytes : bodyBytes (ms.take k ++ (ms.drop k).map cutOff) = bodyBytes (ms.take k) := by
    rw [bodyBytes_append, bodyBytes_cutOff, Nat.add_zero]
  refine ⟨k, hk, _, rfl, ?_, fun h => by simpa using hlt h, ?_⟩
  · rw [hbytes]
    simpa using hle
  · rw [BodySizeLimit.call, if_neg (not_not.2 hhttp), if_neg (Bool.eq_false_iff.1 hsmall)]
    have hlog := stack_counting maxBytes app s n ms hhttp
    rw [hseen] at hlog
    refine Prod.ext ?_ hlog
    rw [exec_rest, hlog, List.countP_map]
    simp [Function.comp_def]

/-- Behind the middlewares an application does on a request what it would do on one without them that is cut
off at the limit, and its responses start as `withHeaders` has them; a request that declares too much is
refused, and nothing of it is received. -/
theorem exec_stack (maxBytes : Int) (app : AsgiApp σ) (s : σ) (n : Nat) (ms : List Received)
    (hhttp : scope.type = "http") :
    (BodySizeLimit.declaresTooLarge maxBytes scope = true →
      (exec (stack maxBytes scope app) n (BodySizeLimit.call maxBytes scope s) ms).2
        = (ms, (BodySizeLimit.reject.take n).map fun m => some (SecurityHeaders.withHeaders scope m))) ∧
    (BodySizeLimit.declaresTooLarge maxBytes scope = false → ∃ k ≤ ms.length,
      ∃ seen, seen = ms.take k ++ (ms.drop k).map cutOff ∧
        (bodyBytes seen = 0 ∨ (bodyBytes seen : Int) ≤ maxBytes) ∧
        (k < ms.length → maxBytes < bodyBytes (ms.take (k + 1))) ∧
        (exec (stack maxBytes scope app) n (BodySizeLimit.call maxBytes scope s) ms).2
          = (ms.drop ((exec app n s seen).2.2.countP (·.isNone)),
            (exec app n s seen).2.2.map (·.map (SecurityHeaders.withHeaders scope)))) :=
  ⟨exec_stack_refused app s n ms hhttp, exec_stack_served app s n ms hhttp⟩

/-- An application that receives messages, and one that starts a response. -/
def counting : AsgiApp Nat := fun s => .receive fun _ => s + 1
def docsPage : AsgiApp Bool := fun s => if s then .done else .send (.start 200 []) true

/-- A body in two parts, the second of which is over the limit. -/
theorem exec_stack_cut : ∃ k ≤ 2, ∃ seen,
    seen = [Received.request [1, 2] true, .request [3, 4] false].take k
      ++ ([Received.request [1, 2] true, .request [3, 4] false].drop k).map cutOff ∧
    (bodyBytes seen = 0 ∨ (bodyBytes seen : Int) ≤ 3) ∧
    (k < 2 → 3 < (bodyBytes ([Received.request [1, 2] true, .request [3, 4] false].take (k + 1)) : Int)) ∧
    (exec (stack 3 ⟨"http", "/", []⟩ counting) 2 (.counting 0 0)
      [.request [1, 2] true, .request [3, 4] false]).2
      = (List.drop ((exec counting 2 0 seen).2.2.countP (·.isNone))
          [.request [1, 2] true, .request [3, 4] false],
        (exec counting 2 0 seen).2.2.map (·.map (SecurityHeaders.withHeaders ⟨"http", "/", []⟩))) :=
  (exec_stack 3 counting 0 2 [.request [1, 2] true, .request [3, 4] false] rfl).2 rfl

/-- Every response that starts has each security header, as the one who sends it has set it or else as the
middleware does, and has no other header for it; on the pages of the API's documentation only the
`content-security-policy` is left to the page. -/
theorem starts_carry_headers (maxBytes : Int) (app : AsgiApp σ) (s : σ) (n : Nat) (ms : List Received)
    (hhttp : scope.type = "http") {status : Nat} {hs' : Headers}
    (hsent : .start status hs' ∈
      sent (exec (stack maxBytes scope app) n (BodySizeLimit.call maxBytes scope s) ms).2.2) :
    ∃ hs, (.start status hs ∈ BodySizeLimit.reject ∨ ∃ seen, .start status hs ∈ sent (exec app n s seen).2.2) ∧
      hs' = hs ++ headersMissing scope hs := by
  -- only a start is made a start
  have hstart : ∀ m, SecurityHeaders.withHeaders scope m = .start status hs' →
      ∃ hs, m = .start status hs ∧ hs' = hs ++ headersMissing scope hs := by
    intro m hm
    cases m with
    | start status₀ hs =>
      rw [withHeaders_start] at hm
      cases hm
      exact ⟨hs, rfl, rfl⟩
    | body body moreBody => cases hm
    | other type => cases hm
  cases h : BodySizeLimit.declaresTooLarge maxBytes scope with
  | true =>
    rw [exec_stack_refused app s n ms hhttp h] at hsent
    obtain ⟨o, ho, hm⟩ := List.mem_filterMap.1 hsent
    obtain ⟨m, hmem, rfl⟩ := List.mem_map.1 ho
    obtain ⟨hs, rfl, hrest⟩ := hstart m (Option.some.inj hm)
    exact ⟨hs, .inl (List.mem_of_mem_take hmem), hrest⟩
  | false =>
    obtain ⟨k, -, seen, -, -, -, hlog⟩ := exec_stack_served app s n ms hhttp h
    rw [hlog] at hsent
    obtain ⟨o, ho, hm⟩ := List.mem_filterMap.1 hsent
    obtain ⟨o', ho', rfl⟩ := List.mem_map.1 ho
    obtain ⟨m, rfl, hm'⟩ := Option.map_eq_some_iff.1 hm
    obtain ⟨hs, rfl, hrest⟩ := hstart m hm'
    exact ⟨hs, .inr ⟨seen, List.mem_filterMap.2 ⟨_, ho', rfl⟩⟩, hrest⟩

/-- A page that sets no header has all of them but, on `/docs`, the `content-security-policy`. -/
theorem starts_carry_headers_page :
    (∃ hs, (.start 200 hs ∈ BodySizeLimit.reject ∨ ∃ seen, .start 200 hs ∈ sent (exec docsPage 1 false seen).2.2) ∧
      headersMissing ⟨"http", "/docs", []⟩ [] = hs ++ headersMissing ⟨"http", "/docs", []⟩ hs) ∧
    (headersMissing ⟨"http", "/docs", []⟩ []).map Prod.fst =
      ["x-content-type-options", "x-frame-options", "referrer-policy", "strict-transport-security"] :=
  ⟨starts_carry_headers 3 docsPage false 1 [] rfl
    (List.mem_singleton.2 (withHeaders_start ⟨"http", "/docs", []⟩ 200 []).symm), by decide⟩

end KnowledgeDesk.Proofs
