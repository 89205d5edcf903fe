import KnowledgeDesk.Proofs.RateLimitProofs

/-!
# When eviction can be observed

The sweep drops what has not been used for an hour, whatever the tuning. Where an hour does not fill a
bucket, a key that spent its burst among a thousand others gets it back at the next call after the hour:
a limiter that never evicts would have refilled a part of it.
-/

open TokenBucket

namespace KnowledgeDesk.Proofs

/-- No call can tell the limiter from one that never evicts, nor from one that serves its key alone. -/
def Unobservable (settings : RateSettings) (burst perMin : Int) : Prop :=
  ∀ calls, Clocked calls →
    serve (checking settings burst perMin) Dict.empty calls =
        serve (neverEvicting burst perMin) Dict.empty calls ∧
      ∀ key, ofKey key (serve (checking settings burst perMin) Dict.empty calls) =
        serve (checking settings burst perMin) Dict.empty (calls.filter fun c => c.key == key)

/-! ## Where it cannot -/

section Keys

variable {burst perMin : Int} {buckets : Buckets}

theorem mem_serve {limiter : Limiter} {cs : List Call} {e : Call × (Bool × ℚ)}
    (he : e ∈ serve limiter buckets cs) : e.1 ∈ cs := by
  induction cs generalizing buckets with
  | nil => cases he
  | cons c cs ih =>
    rcases List.mem_cons.1 he with rfl | he
    · exact List.mem_cons_self
    · exact List.mem_cons_of_mem c (ih he)

theorem ofKey_serve_of_forall {limiter : Limiter} {key : String} {cs : List Call}
    (h : ∀ c ∈ cs, c.key = key) : ofKey key (serve limiter buckets cs) = serve limiter buckets cs := by
  rw [ofKey, List.filter_eq_self]
  intro e he
  rw [beq_iff_eq]
  exact h e.1 (mem_serve he)

/-- Without eviction a key is served as if it were alone. -/
theorem ofKey_serve_alone (key : String) (cs : List Call) :
    ofKey key (serve (neverEvicting burst perMin) buckets cs) =
      serve (neverEvicting burst perMin) buckets (cs.filter fun c => c.key == key) := by
  have halone : ∀ c ∈ cs.filter fun c => c.key == key, c.key = key := by
    intro c hc
    exact beq_iff_eq.1 (List.mem_filter.1 hc).2
  rw [← ofKey_serve_of_forall halone, ofKey_serve_neverEvicting, ofKey_serve_neverEvicting,
    List.filter_filter]
  simp only [Bool.and_self]

end Keys

theorem unobservable_of_fills (settings : RateSettings) {burst perMin : Int}
    (hfills : burst ≤ 0 ∨ burst ≤ 60 * perMin) : Unobservable settings burst perMin := by
  intro calls hcalls
  have hall := serve_checking settings hfills hcalls
  refine ⟨hall, fun key => ?_⟩
  rw [hall, ofKey_serve_alone, serve_checking settings hfills (hcalls.filter _)]

/-! ## A thousand other keys -/

section Instant

variable {burst perMin : Int} {buckets buckets' : Buckets} {t : ℚ}

/-- What the sweep does not drop. -/
theorem bucket?_evictIfMany_of_recent {key : String}
    (h : ∀ b, bucket? buckets key = some b → t - 3600 ≤ b.last) :
    bucket? (evictIfMany t buckets) key = bucket? buckets key := by
  rcases bucket?_evictIfMany t buckets key with hsame | ⟨-, b, hb, hidle⟩
  · exact hsame
  · exact absurd (h b hb) (not_le.2 hidle)

/-- What the sweep drops where there are many buckets. -/
theorem bucket?_evictIfMany_of_idle (hmany : 1000 < buckets.size) {key : String}
    (h : ∀ b, bucket? buckets key = some b → b.last < t - 3600) :
    bucket? (evictIfMany t buckets) key = none := by
  unfold evictIfMany bucket?
  rw [if_pos hmany, evictIdle, Dict.get?_keep]
  cases hb : buckets.get? key with
  | none => rfl
  | some b =>
    have hidle : b.2 < t - EVICT_AFTER_SECONDS := h ⟨b.1, b.2⟩ (by rw [bucket?, hb]; rfl)
    rw [Option.filter_some, decide_eq_true hidle]
    rfl

/-- Every bucket has been used at the instant. -/
def UsedAt (t : ℚ) (buckets : Buckets) : Prop := ∀ key b, bucket? buckets key = some b → b.last = t

theorem UsedAt.call (h : UsedAt t buckets) (key : String) :
    UsedAt t (consume burst (perMin / 60) key t buckets).2 := by
  intro k b hb
  by_cases hk : k = key
  · subst hk
    rw [bucket?_consume_self] at hb
    obtain rfl := Option.some.inj hb
    rfl
  · rw [bucket?_consume_of_ne hk] at hb
    exact h k b hb

/-- A sweep drops nothing used at its instant. -/
theorem UsedAt.evict (h : UsedAt t buckets) (key : String) :
    bucket? (evictIfMany t buckets) key = bucket? buckets key := by
  refine bucket?_evictIfMany_of_recent fun b hb => ?_
  rw [h key b hb]
  linarith

theorem bucket?_consume_congr {key : String} {rate : ℚ}
    (h : ∀ k, bucket? buckets k = bucket? buckets' k) :
    (consume burst rate key t buckets).1 = (consume burst rate key t buckets').1 ∧
      ∀ k, bucket? (consume burst rate key t buckets).2 k =
        bucket? (consume burst rate key t buckets').2 k := by
  constructor
  · rw [consume_eq, consume_eq, h key]
  · intro k
    by_cases hk : k = key
    · subst hk
      rw [bucket?_consume_self, bucket?_consume_self, h k]
    · rw [bucket?_consume_of_ne hk, bucket?_consume_of_ne hk, h k]

/-- At one instant the limiter does what one does that never evicts, once its first sweep is done. -/
theorem serve_at {cs : List Call} (hcs : ∀ c ∈ cs, c.now = t) (hused : UsedAt t buckets')
    (hsame : ∀ key, bucket? (evictIfMany t buckets) key = bucket? buckets' key) :
    serve (sweeping evictIfMany burst perMin) buckets cs = serve (neverEvicting burst perMin) buckets' cs ∧
      UsedAt t (served (neverEvicting burst perMin) buckets' cs) ∧
      ∀ key, bucket? (evictIfMany t (served (sweeping evictIfMany burst perMin) buckets cs)) key =
        bucket? (served (neverEvicting burst perMin) buckets' cs) key := by
  induction cs generalizing buckets buckets' with
  | nil => exact ⟨rfl, hused, hsame⟩
  | cons c cs ih =>
    obtain rfl := hcs c List.mem_cons_self
    obtain ⟨hout, hafter⟩ := @bucket?_consume_congr burst _ _ c.now c.key (perMin / 60) hsame
    have hused' := @UsedAt.call burst perMin _ _ hused c.key
    have hswept : UsedAt c.now (consume burst (perMin / 60) c.key c.now (evictIfMany c.now buckets)).2 :=
      fun key b hb => hused' key b (hafter key ▸ hb)
    obtain ⟨hrest, husedRest, hsameRest⟩ := ih (fun d hd => hcs d (List.mem_cons_of_mem c hd)) hused'
      fun key => (hswept.evict key).trans (hafter key)
    refine ⟨?_, husedRest, hsameRest⟩
    rw [serve, serve, neverEvicting]
    simp only [sweeping]
    rw [hout]
    exact congrArg _ hrest

end Instant

section Burst

variable {burst perMin : Int} {buckets : Buckets} {key : String} {t : ℚ}

theorem served_cons (limiter : Limiter) (buckets : Buckets) (c : Call) (cs : List Call) :
    served limiter buckets (c :: cs) = served limiter (limiter c buckets).2 cs := rfl

/-- Calls of one instant are all allowed as long as there are tokens. -/
theorem burst_allowed_iff (n : ℕ) :
    (∀ e ∈ serve (neverEvicting burst perMin) buckets (List.replicate (n + 1) ⟨key, t⟩), e.2.1 = true) ↔
      (n + 1 : ℚ) ≤ level (burst : ℚ) (perMin / 60) (bucket? buckets key) t := by
  induction n generalizing buckets with
  | zero =>
    rw [List.replicate_one, serve, serve, List.forall_mem_singleton, neverEvicting, sweeping, consume_eq,
      outcome_allowed, decide_eq_true_eq, Nat.cast_zero, zero_add]
  | succ n ih =>
    rw [List.replicate_succ, serve, List.forall_mem_cons, ih]
    rw [neverEvicting, sweeping, bucket?_consume_self, consume_eq, outcome_allowed, decide_eq_true_eq]
    have hn : (0 : ℚ) ≤ n := Nat.cast_nonneg n
    constructor
    · rintro ⟨hallowed, hrest⟩
      rw [level_take_of_allowed _ hallowed] at hrest
      rw [Nat.cast_succ]
      linarith
    · intro h
      rw [Nat.cast_succ] at h
      have hallowed : 1 ≤ level (burst : ℚ) (perMin / 60) (bucket? buckets key) t := by linarith
      refine ⟨hallowed, ?_⟩
      rw [level_take_of_allowed _ hallowed]
      linarith

/-- Each of them takes its token. -/
theorem bucket?_served_burst (n : ℕ) {l : ℚ}
    (hl : level (burst : ℚ) (perMin / 60) (bucket? buckets key) t = l) (hn : (n + 1 : ℚ) ≤ l) :
    bucket? (served (neverEvicting burst perMin) buckets (List.replicate (n + 1) ⟨key, t⟩)) key =
      some ⟨l - (n + 1), t⟩ := by
  have hpos : (0 : ℚ) ≤ n := Nat.cast_nonneg n
  have hallowed : 1 ≤ level (burst : ℚ) (perMin / 60) (bucket? buckets key) t := by linarith
  induction n generalizing buckets l with
  | zero =>
    show bucket? (consume burst (perMin / 60) key t buckets).2 key = _
    rw [bucket?_consume_self, take, if_pos hallowed, hl, Nat.cast_zero, zero_add]
  | succ n ih =>
    rw [Nat.cast_succ] at hn hpos ⊢
    have hn' : (0 : ℚ) ≤ n := Nat.cast_nonneg n
    have hnext : level (burst : ℚ) (perMin / 60)
        (bucket? (consume burst (perMin / 60) key t buckets).2 key) t = l - 1 := by
      rw [bucket?_consume_self, level_take_of_allowed _ hallowed, hl]
    rw [List.replicate_succ, served_cons]
    have hrest := ih hnext (by linarith) hn' (by rw [hnext]; linarith)
    rw [show l - (n + 1 + 1) = l - 1 - (n + 1) by ring]
    exact hrest

theorem bucket?_served_of_forall_ne {cs : List Call} (h : ∀ c ∈ cs, c.key ≠ key) :
    bucket? (served (neverEvicting burst perMin) buckets cs) key = bucket? buckets key := by
  induction cs generalizing buckets with
  | nil => rfl
  | cons c cs ih =>
    rw [served_cons, ih fun d hd => h d (List.mem_cons_of_mem c hd)]
    exact bucket?_consume_of_ne (h c List.mem_cons_self).symm

/-- A key that called has a bucket. -/
theorem bucket?_served_ne_none {cs : List Call} (h : bucket? buckets key ≠ none ∨ ∃ c ∈ cs, c.key = key) :
    bucket? (served (neverEvicting burst perMin) buckets cs) key ≠ none := by
  induction cs generalizing buckets with
  | nil =>
    rcases h with h | ⟨c, hc, -⟩
    · exact h
    · cases hc
  | cons c cs ih =>
    rw [served_cons]
    by_cases hkey : key = c.key
    · refine ih (.inl ?_)
      show bucket? (consume burst (perMin / 60) c.key c.now buckets).2 key ≠ none
      rw [hkey, bucket?_consume_self]
      exact Option.some_ne_none _
    · refine ih ?_
      rcases h with h | ⟨d, hd, hdk⟩
      · refine .inl ?_
        show bucket? (consume burst (perMin / 60) c.key c.now buckets).2 key ≠ none
        rw [bucket?_consume_of_ne hkey]
        exact h
      · rcases List.mem_cons.1 hd with rfl | hd
        · exact absurd hdk.symm hkey
        · exact .inr ⟨d, hd, hdk⟩

end Burst

/-- A thousand keys, none of them empty. -/
def others : List String := (List.range 1000).map fun i => String.ofList (List.replicate (i + 1) 'a')

theorem nodup_others : ("" :: others).Nodup := by
  rw [List.nodup_cons]
  constructor
  · intro h
    obtain ⟨i, -, hi⟩ := List.mem_map.1 h
    have hlen := congrArg String.length hi
    simp at hlen
  · refine List.nodup_range.map fun i j hij => ?_
    have hlen := congrArg String.length hij
    simpa using hlen

/-- A key spends its burst among the others. -/
def crowd (burst : Int) : List Call :=
  List.replicate burst.toNat ⟨"", 0⟩ ++ others.map fun key => ⟨key, 0⟩

/-- And comes back for it. -/
def comeback (burst : Int) (t : ℚ) : List Call := List.replicate burst.toNat ⟨"", t⟩

theorem now_of_mem_crowd {burst : Int} {c : Call} (hc : c ∈ crowd burst) : c.now = 0 := by
  rcases List.mem_append.1 hc with hc | hc
  · rw [List.eq_of_mem_replicate hc]
  · obtain ⟨key, -, rfl⟩ := List.mem_map.1 hc
    rfl

theorem now_of_mem_comeback {burst : Int} {t : ℚ} {c : Call} (hc : c ∈ comeback burst t) : c.now = t := by
  rw [List.eq_of_mem_replicate hc]

theorem clocked_of_now_eq {t : ℚ} {cs : List Call} (h : ∀ c ∈ cs, c.now = t) : Clocked cs := by
  refine List.pairwise_of_forall_mem_list fun c hc d hd => ?_
  rw [h c hc, h d hd]

theorem clocked_crowd {burst : Int} {t : ℚ} (ht : 0 ≤ t) : Clocked (crowd burst ++ comeback burst t) := by
  refine List.pairwise_append.2 ⟨clocked_of_now_eq fun c => now_of_mem_crowd,
    clocked_of_now_eq fun c => now_of_mem_comeback, fun c hc d hd => ?_⟩
  rw [now_of_mem_crowd hc, now_of_mem_comeback hd]
  exact ht

theorem usedAt_empty (t : ℚ) : UsedAt t Dict.empty := by
  intro key b hb
  cases hb

section Comeback

variable {burst perMin : Int}

theorem crowd_key {key : String} (hburst : 1 ≤ burst) (hkey : key ∈ "" :: others) :
    ∃ c ∈ crowd burst, c.key = key := by
  rcases List.mem_cons.1 hkey with rfl | hkey
  · refine ⟨⟨"", 0⟩, List.mem_append_left _ ?_, rfl⟩
    exact List.mem_replicate.2 ⟨by omega, rfl⟩
  · exact ⟨⟨key, 0⟩, List.mem_append_right _ (List.mem_map.2 ⟨key, hkey, rfl⟩), rfl⟩

/-- Without eviction the key has spent its burst. -/
theorem bucket?_served_crowd {n : ℕ} (hn : burst = n + 1) :
    bucket? (served (neverEvicting burst perMin) Dict.empty (crowd burst)) "" = some ⟨0, 0⟩ := by
  have hcap : (burst : ℚ) = n + 1 := by exact_mod_cast hn
  have hothers : ∀ c ∈ others.map fun key => (⟨key, 0⟩ : Call), c.key ≠ "" := by
    intro c hc
    obtain ⟨key, hkey, rfl⟩ := List.mem_map.1 hc
    rintro rfl
    exact (List.nodup_cons.1 nodup_others).1 hkey
  rw [crowd, served, Runs.run_append, ← served, ← served, bucket?_served_of_forall_ne hothers,
    show burst.toNat = n + 1 by omega]
  have hfull : level (burst : ℚ) (perMin / 60) (bucket? Dict.empty "") 0 = burst := rfl
  rw [bucket?_served_burst n hfull (le_of_eq hcap.symm), hcap, sub_self]

/-- After the hour the sweep finds every bucket of the crowd idle. -/
theorem evict_crowd (hburst : 1 ≤ burst) {t : ℚ} (ht : 3600 < t) (key : String) :
    bucket? (evictIfMany t (served (sweeping evictIfMany burst perMin) Dict.empty (crowd burst))) key =
      none := by
  obtain ⟨-, hused, hsame⟩ := @serve_at burst perMin Dict.empty Dict.empty 0 (crowd burst)
    (fun c => now_of_mem_crowd) (usedAt_empty 0) fun key => (usedAt_empty 0).evict key
  generalize hs : served (sweeping evictIfMany burst perMin) Dict.empty (crowd burst) = swept at hsame ⊢
  have hthere : ∀ k ∈ "" :: others, swept.get? k ≠ none := by
    intro k hk hnone
    have hcalled := @bucket?_served_ne_none burst perMin Dict.empty k (crowd burst)
      (.inr (crowd_key hburst hk))
    rw [← hsame k] at hcalled
    rcases bucket?_evictIfMany 0 swept k with hkept | ⟨hgone, -⟩
    · rw [hkept, bucket?, hnone] at hcalled
      exact hcalled rfl
    · exact hcalled hgone
  have hsize : ("" :: others).length ≤ swept.size := Dict.length_le_size nodup_others hthere
  have hmany : 1000 < swept.size := by
    rw [List.length_cons, others, List.length_map, List.length_range] at hsize
    omega
  refine bucket?_evictIfMany_of_idle hmany fun b hb => ?_
  rcases bucket?_evictIfMany 0 swept key with hkept | ⟨-, b', hb', hidle⟩
  · have hlast : b.last = 0 := hused key b (by rw [← hsame key, hkept, hb])
    linarith
  · obtain rfl := Option.some.inj (hb.symm.trans hb')
    linarith

/-- A key that an hour does not fill gets more at its return than was refilled. -/
theorem comeback_differs (settings : RateSettings) (hburst : 1 ≤ burst) {t : ℚ} (ht : 3600 < t)
    (hshort : t * (perMin / 60) < burst) :
    serve (checking settings burst perMin) Dict.empty (crowd burst ++ comeback burst t) ≠
      serve (neverEvicting burst perMin) Dict.empty (crowd burst ++ comeback burst t) := by
  intro hsame
  rw [serve_append, serve_append] at hsame
  have hlate := (List.append_inj hsame (by rw [length_serve, length_serve])).2
  obtain ⟨n, hn⟩ : ∃ n : ℕ, burst = n + 1 := ⟨(burst - 1).toNat, by omega⟩
  have hcap : (burst : ℚ) = n + 1 := by exact_mod_cast hn
  have hnat : burst.toNat = n + 1 := by omega
  obtain ⟨hagain, -⟩ := @serve_at burst perMin _ Dict.empty t (comeback burst t)
    (fun c => now_of_mem_comeback) (usedAt_empty t) fun key => evict_crowd hburst ht key
  rw [checking_eq, hagain, comeback, hnat] at hlate
  have hall := (@burst_allowed_iff burst perMin Dict.empty "" t n).2 (le_of_eq hcap.symm)
  rw [hlate, burst_allowed_iff, bucket?_served_crowd hn] at hall
  have hrefilled : level (burst : ℚ) (perMin / 60) (some ⟨0, 0⟩) t ≤ 0 + (t - 0) * (perMin / 60) :=
    min_le_right _ _
  linarith

end Comeback

/-! ## When it can be observed -/

/-- Eviction cannot be observed exactly where a bucket holds nothing or an hour fills it. -/
theorem eviction_unobservable_iff (settings : RateSettings) (burst perMin : Int) :
    Unobservable settings burst perMin ↔ burst ≤ 0 ∨ burst ≤ 60 * perMin := by
  refine ⟨fun h => ?_, unobservable_of_fills settings⟩
  by_contra hnot
  obtain ⟨hburst, hshort⟩ := not_or.1 hnot
  -- a little more than an hour, so little that less than a token flows in
  have hwidth : (0 : ℚ) < 1 + |(perMin : ℚ)| := by positivity
  have hpos : 0 < 1 / (1 + |(perMin : ℚ)|) := by positivity
  have hlittle : 1 / (1 + |(perMin : ℚ)|) * perMin ≤ 1 := by
    rw [one_div, inv_mul_le_iff₀ hwidth]
    linarith [le_abs_self (perMin : ℚ)]
  have hwhole : (60 * perMin + 1 : ℚ) ≤ burst := by exact_mod_cast (by omega : 60 * perMin + 1 ≤ burst)
  have hdiffers := comeback_differs settings (by omega : 1 ≤ burst)
    (by linarith : (3600 : ℚ) < 3600 + 1 / (1 + |(perMin : ℚ)|))
    (by linarith : _ * ((perMin : ℚ) / 60) < burst)
  exact hdiffers (h _ (clocked_crowd (by linarith))).1

/-- A burst of a hundred at one a minute: an hour refills sixty, and the sweep gives back the hundred. -/
theorem burst_of_hundred_comes_back :
    Clocked (crowd 100 ++ comeback 100 3601) ∧
      serve (checking {} 100 1) Dict.empty (crowd 100 ++ comeback 100 3601) ≠
        serve (neverEvicting 100 1) Dict.empty (crowd 100 ++ comeback 100 3601) :=
  ⟨clocked_crowd (by norm_num), comeback_differs {} (by decide) (by norm_num) (by norm_num)⟩

end KnowledgeDesk.Proofs
