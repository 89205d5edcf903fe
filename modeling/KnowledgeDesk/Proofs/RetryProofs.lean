import KnowledgeDesk.Proofs.RateLimitProofs

/-!
# The retry of a denied call

From a call that is denied on, the bucket of its key has a token from the time the retry names on. A call
that is denied before changes nothing of it, and the sweep drops the bucket after that time only.
-/

open TokenBucket

namespace KnowledgeDesk.Proofs

/-- From `since` on the bucket of a key waits for its token, which it has from `ready` on. -/
structure Waits (burst perMin : Int) (key : String) (since ready clock : ℚ) (buckets : Buckets) : Prop where
  started : since ≤ clock
  last : ∀ b, bucket? buckets key = some b → since ≤ b.last
  ready_iff : ∀ u, clock ≤ u → (1 ≤ level (burst : ℚ) (perMin / 60) (bucket? buckets key) u ↔ ready ≤ u)

variable {burst perMin : Int} {key : String} {since ready clock now : ℚ} {buckets : Buckets}

/-- The sweep drops a bucket that has had its token for long. -/
theorem Waits.evict (h : Waits burst perMin key since ready clock buckets) (hburst : 1 ≤ burst)
    (hready : ready ≤ since + 3600) (hnow : clock ≤ now) :
    Waits burst perMin key since ready now (evictIfMany now buckets) := by
  rcases bucket?_evictIfMany now buckets key with hsame | ⟨hgone, b, hb, hidle⟩
  · refine ⟨h.started.trans hnow, ?_, ?_⟩
    · rw [hsame]
      exact h.last
    · rw [hsame]
      exact fun u hu => h.ready_iff u (hnow.trans hu)
  · have hlast := h.last b hb
    have hcap : (1 : ℚ) ≤ burst := by exact_mod_cast hburst
    refine ⟨h.started.trans hnow, ?_, fun u hu => ?_⟩
    · rw [hgone]
      rintro b' hb'
      cases hb'
    · rw [hgone]
      exact iff_of_true hcap (by linarith)

theorem Waits.call_of_ne (h : Waits burst perMin key since ready clock buckets) {c : Call}
    (hc : clock ≤ c.now) (hkey : key ≠ c.key) :
    Waits burst perMin key since ready c.now (consume burst (perMin / 60) c.key c.now buckets).2 := by
  refine ⟨h.started.trans hc, ?_, ?_⟩
  · rw [bucket?_consume_of_ne hkey]
    exact h.last
  · rw [bucket?_consume_of_ne hkey]
    exact fun u hu => h.ready_iff u (hc.trans hu)

/-- A call that comes too early changes no level. -/
theorem Waits.call_early (h : Waits burst perMin key since ready clock buckets) (hrate : 0 ≤ perMin)
    {c : Call}
    (hc : clock ≤ c.now) (hkey : key = c.key) (hearly : c.now < ready) :
    Waits burst perMin key since ready c.now (consume burst (perMin / 60) c.key c.now buckets).2 := by
  subst hkey
  have hdenied : level (burst : ℚ) (perMin / 60) (bucket? buckets c.key) c.now < 1 := by
    rw [← not_le, h.ready_iff c.now hc]
    exact not_le.2 hearly
  refine ⟨h.started.trans hc, ?_, fun u hu => ?_⟩
  · rw [bucket?_consume_self]
    rintro b hb
    obtain rfl := Option.some.inj hb
    exact h.started.trans hc
  · rw [bucket?_consume_self, level_take_of_denied (refill_nonneg hrate) _ hu hdenied]
    exact h.ready_iff u (hc.trans hu)

/-- The bucket waits through any calls of other keys and any early ones of its own. -/
theorem Waits.served (hburst : 1 ≤ burst) (hrate : 0 ≤ perMin) (hready : ready ≤ since + 3600)
    {cs : List Call}
    (hcs : Clocked cs) (hclock : ∀ c ∈ cs, clock ≤ c.now)
    (hearly : ∀ c ∈ cs, c.key = key → c.now < ready) (hle : clock ≤ now) (hnow : ∀ c ∈ cs, c.now ≤ now)
    (h : Waits burst perMin key since ready clock buckets) :
    Waits burst perMin key since ready now (served (sweeping evictIfMany burst perMin) buckets cs) := by
  induction hcs generalizing buckets clock with
  | nil => exact ⟨h.started.trans hle, h.last, fun u hu => h.ready_iff u (hle.trans hu)⟩
  | @cons c cs hc _ ih =>
    have hmem := @List.mem_cons_self _ c cs
    have hswept := h.evict hburst hready (hclock c hmem)
    have hcalled : Waits burst perMin key since ready c.now
        (consume burst (perMin / 60) c.key c.now (evictIfMany c.now buckets)).2 := by
      by_cases hkey : key = c.key
      · exact hswept.call_early hrate (le_refl _) hkey (hearly c hmem hkey.symm)
      · exact hswept.call_of_ne (le_refl _) hkey
    exact ih hc (fun d hd => hearly d (List.mem_cons_of_mem c hd)) (hnow c hmem)
      (fun d hd => hnow d (List.mem_cons_of_mem c hd)) hcalled

/-- A call that is denied leaves a bucket that waits for as long as it says. -/
theorem waits_of_denied (hburst : 1 ≤ burst) (hrate : 1 ≤ perMin) {t retry : ℚ}
    (h : (consume burst (perMin / 60) key t buckets).1 = (false, retry)) :
    Waits burst perMin key t (t + retry) t (consume burst (perMin / 60) key t buckets).2 := by
  have hflow : (0 : ℚ) < perMin / 60 := div_pos (by exact_mod_cast (by omega : 0 < perMin)) (by norm_num)
  have hcap : (1 : ℚ) ≤ burst := by exact_mod_cast hburst
  generalize hl : level (burst : ℚ) (perMin / 60) (bucket? buckets key) t = l at h
  rw [consume_eq, hl, outcome] at h
  by_cases hallowed : 1 ≤ l
  · rw [if_pos hallowed] at h
    cases h
  · rw [if_neg hallowed, if_pos hflow] at h
    obtain rfl : (1 - l) / (perMin / 60) = retry := congrArg Prod.snd h
    refine ⟨le_refl t, ?_, fun u hu => ?_⟩
    · rw [bucket?_consume_self]
      rintro b hb
      obtain rfl := Option.some.inj hb
      exact le_refl t
    · rw [bucket?_consume_self, take, hl, if_neg hallowed, level]
      calc 1 ≤ min (burst : ℚ) (l + (u - t) * (perMin / 60))
          ↔ 1 ≤ l + (u - t) * (perMin / 60) := by rw [le_min_iff, and_iff_right hcap]
        _ ↔ 1 - l ≤ (u - t) * (perMin / 60) := sub_le_iff_le_add'.symm
        _ ↔ (1 - l) / (perMin / 60) ≤ u - t := (div_le_iff₀ hflow).symm
        _ ↔ t + (1 - l) / (perMin / 60) ≤ u := le_sub_iff_add_le'

/-- A bucket that owes nothing waits a minute at most. -/
theorem retry_le_minute {t retry : ℚ} (hburst : 1 ≤ burst) (hrate : 1 ≤ perMin)
    (hsound : Sound burst t buckets)
    (h : (consume burst (perMin / 60) key t buckets).1 = (false, retry)) : retry ≤ 60 := by
  have hper : (1 : ℚ) ≤ perMin := by exact_mod_cast hrate
  have hflow : (0 : ℚ) < perMin / 60 := div_pos (by linarith) (by norm_num)
  have hcap : (0 : ℚ) ≤ burst := by exact_mod_cast (by omega : 0 ≤ burst)
  have hlevel := hsound.le_level (by omega : 0 ≤ perMin) key (le_refl t)
  rw [min_eq_left hcap] at hlevel
  rw [consume_eq, outcome] at h
  by_cases hallowed : 1 ≤ level (burst : ℚ) (perMin / 60) (bucket? buckets key) t
  · rw [if_pos hallowed] at h
    cases h
  · rw [if_neg hallowed, if_pos hflow] at h
    obtain rfl := congrArg Prod.snd h
    rw [div_le_iff₀ hflow]
    linarith

theorem Sound.served (hrate : 0 ≤ perMin) {cs : List Call} (hcs : Clocked cs)
    (hclock : ∀ c ∈ cs, clock ≤ c.now)
    (hle : clock ≤ now) (hnow : ∀ c ∈ cs, c.now ≤ now) (h : Sound burst clock buckets) :
    Sound burst now (served (sweeping evictIfMany burst perMin) buckets cs) := by
  induction hcs generalizing buckets clock with
  | nil =>
    intro key b hb
    obtain ⟨htokens, hlast⟩ := h key b hb
    exact ⟨htokens, hlast.trans hle⟩
  | @cons c cs hc _ ih =>
    have hmem := @List.mem_cons_self _ c cs
    exact ih hc (hnow c hmem) (fun d hd => hnow d (List.mem_cons_of_mem c hd))
      ((h.evict c.now).call hrate (hclock c hmem))

/-- The limiter's buckets are sound after any calls. -/
theorem sound_served (hrate : 0 ≤ perMin) {cs : List Call} (hcs : Clocked cs) (hnow : ∀ c ∈ cs, c.now ≤ now) :
    Sound burst now (Proofs.served (sweeping evictIfMany burst perMin) Dict.empty cs) := by
  cases cs with
  | nil => exact sound_empty burst now
  | cons c cs =>
    refine Sound.served hrate hcs (fun d hd => ?_) (hnow c List.mem_cons_self) hnow (sound_empty burst c.now)
    rcases List.mem_cons.1 hd with rfl | hd
    · exact le_refl _
    · exact (List.pairwise_cons.1 hcs).1 d hd

/-- After a call that is denied, a call of its key is denied until the retry it was told is over; the first
one then is allowed. -/
theorem retry_after_exact (settings : RateSettings) {burst perMin : Int} (hburst : 1 ≤ burst)
    (hrate : 1 ≤ perMin) {before after : List Call} {denied c : Call} {retry : ℚ}
    (hcalls : Clocked (before ++ denied :: (after ++ [c])))
    (hdenied : (checking settings burst perMin denied
      (served (checking settings burst perMin) Dict.empty before)).1 = (false, retry))
    (hkey : c.key = denied.key) :
    (c.now < denied.now + retry →
      (checking settings burst perMin c
        (served (checking settings burst perMin) Dict.empty (before ++ denied :: after))).1.1 = false) ∧
    (denied.now + retry ≤ c.now →
      (∀ d ∈ after, d.key = denied.key → d.now < denied.now + retry) →
      (checking settings burst perMin c
        (served (checking settings burst perMin) Dict.empty (before ++ denied :: after))).1.1 = true) := by
  obtain ⟨hbefore, hrest, hto⟩ := List.pairwise_append.1 hcalls
  obtain ⟨hfrom, hrest⟩ := List.pairwise_cons.1 hrest
  obtain ⟨hafter, -, hlast⟩ := List.pairwise_append.1 hrest
  have hrate' : 0 ≤ perMin := by omega
  rw [checking_eq] at hdenied ⊢
  have hsound : Sound burst denied.now _ :=
    (sound_served hrate' hbefore fun d hd => hto d hd denied List.mem_cons_self).evict denied.now
  have hwaits := waits_of_denied hburst hrate hdenied
  have hminute := retry_le_minute hburst hrate hsound hdenied
  have hready : denied.now + retry ≤ denied.now + 3600 := by linarith
  -- the call finds a token exactly from the time the retry names on
  have hexact : (∀ d ∈ after, d.key = denied.key → d.now < denied.now + retry) →
      ((sweeping evictIfMany burst perMin c (served (sweeping evictIfMany burst perMin) Dict.empty
        (before ++ denied :: after))).1.1 = true ↔ denied.now + retry ≤ c.now) := by
    intro hearly
    have hc : denied.now ≤ c.now := hfrom c (List.mem_append_right _ List.mem_cons_self)
    have hthen := (hwaits.served hburst hrate' hready hafter
      (fun d hd => hfrom d (List.mem_append_left _ hd)) hearly hc
      fun d hd => hlast d hd c List.mem_cons_self).evict hburst hready (le_refl c.now)
    rw [served, Runs.run_append, Runs.run_cons, sweeping, consume_eq, outcome_allowed, decide_eq_true_eq,
      hkey]
    exact hthen.ready_iff c.now (le_refl c.now)
  constructor
  · intro hearly
    rw [← Bool.not_eq_true, hexact fun d hd _ => lt_of_le_of_lt (hlast d hd c List.mem_cons_self) hearly]
    exact not_le.2 hearly
  · intro hlate hearly
    exact (hexact hearly).2 hlate

/-- At a token a second a call a second after the denied one is allowed, whatever was denied between. -/
theorem second_later_allowed :
    (checking {} 1 60 ⟨"a", 1⟩ (served (checking {} 1 60) Dict.empty
      ([⟨"a", 0⟩] ++ ⟨"a", 0⟩ :: [⟨"b", 1 / 4⟩, ⟨"a", 1 / 2⟩]))).1.1 = true :=
  (@retry_after_exact {} 1 60 (by decide) (by decide) [⟨"a", 0⟩] [⟨"b", 1 / 4⟩, ⟨"a", 1 / 2⟩] ⟨"a", 0⟩
    ⟨"a", 1⟩ 1 (by unfold Clocked; decide +kernel) (by decide +kernel) rfl).2 (by decide +kernel) (by decide +kernel)

end KnowledgeDesk.Proofs
