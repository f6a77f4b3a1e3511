import NaotoExchange.Common.Refinement

/-!
# Probe distances

How far from home the entries of a flat hash map get. The home bucket of a key is its hash modulo
the number of buckets, so that distances depend on how the live keys are spread over the buckets:
where `n + 1` buckets in a row are the home of at most `16 * n + 128` keys (`Spread`), an entry that
is carried from slot to slot stays within 127 slots of its home (`Airborne.dib_lt_of_spread`), as
long as `AddNode` does not leave a group it should have stopped at.

* `run_distances`: the tags of the price map are the distances then, all of them below 128.
* `run_distances_of_buckets`: so they are if no bucket is ever the home of more than 16 prices, for
  then nothing leaves its home bucket and no group is read.
* `skipped_price_at_marker`: 24 prices of which one ends up 128 slots from home, under a tag that
  says that its slot is free.
-/

namespace Naoto

namespace FlatHashMap

open Run RobinHood

section
variable {K V : Type} (toU64 : K → UInt64) (Size : Nat)

/-- The number of a key's bucket. -/
def bucket (key : K) : Nat := (hash64 toU64 key).toNat &&& (Size - 1)

/-- A key's bucket is one of the `n + 1` buckets from `b` on. -/
def inRow (b n : Nat) (key : K) : Bool := decide ((bucket toU64 Size key + (Size - b)) % Size ≤ n)

/-- How far slot `i` is behind the home slot of the key in it. -/
def distance {Size : Nat} (m : FlatHashMap K V Size) (i : Nat) : Nat :=
  (i + (totalSize Size - home toU64 Size (m.keys i))) % totalSize Size

/-- The table keeps the live keys under tags that are their distances. -/
structure Exact {Size : Nat} (m : FlatHashMap K V Size) (f : K → Option V) : Prop where
  stored : ∀ k, f k ≠ none → ∃ i < totalSize Size, m.keys i = k ∧ m.tags i ≠ emptyMarker
  live : ∀ i < totalSize Size, m.tags i ≠ emptyMarker → f (m.keys i) ≠ none
  near : ∀ i < totalSize Size, m.tags i ≠ emptyMarker → distance toU64 m i < 128
  tag : ∀ i < totalSize Size, m.tags i ≠ emptyMarker → m.tags i = UInt8.ofNat (distance toU64 m i)

variable [DecidableEq K]

/-- How many live keys have their home in the `n + 1` buckets from `b` on. -/
def crowd (calls : List (Call K V)) (b n : Nat) : Nat :=
  (liveKeys calls).countP fun k => decide ((bucket toU64 Size k + (Size - b)) % Size ≤ n)

/-- No buckets in a row are the home of more keys than all but one of them have slots, and `spare`
more. -/
def Spread (spare : Nat) (calls : List (Call K V)) : Prop :=
  ∀ b < Size, ∀ n < Size, crowd toU64 Size calls b n ≤ 16 * n + spare

end

section
variable {K V : Type} {toU64 : K → UInt64} {e : Nat} {m : FlatHashMap K V (2 ^ e)}
  {f : K → Option V} {c : Cursor K V (2 ^ e)} {gap : Nat}

theorem home_eq_bucket (k : K) : home toU64 (2 ^ e) k = 16 * bucket toU64 (2 ^ e) k := by
  rw [home, bucket, Nat.shiftLeft_eq]
  omega

theorem bucket_lt (toU64 : K → UInt64) (e : Nat) (k : K) : bucket toU64 (2 ^ e) k < 2 ^ e := by
  rw [bucket, Nat.and_two_pow_sub_one_eq_mod]
  exact Nat.mod_lt _ (Nat.two_pow_pos e)

theorem home_mod (k : K) : home toU64 (2 ^ e) k % totalSize (2 ^ e) = home toU64 (2 ^ e) k := by
  obtain ⟨-, hb⟩ := home_bound toU64 e k
  exact Nat.mod_eq_of_lt (by omega)

/-- A home some slots behind that of bucket `b` is the home of a bucket so much farther. -/
theorem bucket_of_home {k : K} {b t : Nat}
    (h : home toU64 (2 ^ e) k = (16 * b + t) % totalSize (2 ^ e)) :
    t % 16 = 0 ∧ bucket toU64 (2 ^ e) k = (b + t / 16) % 2 ^ e := by
  have h16 : t % 16 = 0 := by
    have hmod := congrArg (· % 16) h
    simp only [mod_totalSize_mod] at hmod
    rw [home_eq_bucket] at hmod
    omega
  refine ⟨h16, ?_⟩
  rw [home_eq_bucket, totalSize_eq, Nat.mul_comm (2 ^ e) 16,
    show 16 * b + t = 16 * (b + t / 16) by omega, Nat.mul_mod_mul_left] at h
  omega

theorem Good.exact (h : Good toU64 m f) : Exact toU64 m f := by
  have hplace : ∀ i < totalSize (2 ^ e), m.tags i ≠ emptyMarker →
      (m.tags i).toNat < totalSize (2 ^ e) ∧
        (home toU64 (2 ^ e) (m.keys i) + (m.tags i).toNat) % totalSize (2 ^ e) = i :=
    fun i hi hE => h.valid.place i hi _ (entryAt_of_ne hi hE)
  have hdist : ∀ i < totalSize (2 ^ e), m.tags i ≠ emptyMarker →
      distance toU64 m i = (m.tags i).toNat := fun i hi hE => by
    obtain ⟨hlt, hi'⟩ := hplace i hi hE
    obtain ⟨-, hb⟩ := home_bound toU64 e (m.keys i)
    rw [distance]
    nth_rewrite 1 [← hi']
    rw [Nat.mod_add_mod, show home toU64 (2 ^ e) (m.keys i) + (m.tags i).toNat +
      (totalSize (2 ^ e) - home toU64 (2 ^ e) (m.keys i)) = (m.tags i).toNat + totalSize (2 ^ e) by
        omega, Nat.add_mod_right, Nat.mod_eq_of_lt hlt]
  refine ⟨fun k hk => ?_, fun i hi hE => ?_, fun i hi hE => ?_, fun i hi hE => ?_⟩
  · obtain ⟨v, hv⟩ := Option.ne_none_iff_exists'.mp hk
    obtain ⟨i, hi, x, hx, rfl, -⟩ := (h.contents k v).mp hv
    obtain ⟨-, hE, -, hkey, -⟩ := entryAt_eq_some hx
    exact ⟨i, hi, hkey, hE⟩
  · rw [(h.contents _ _).mpr ⟨i, hi, _, entryAt_of_ne hi hE, rfl, rfl⟩]
    exact Option.some_ne_none _
  · rw [hdist i hi hE]
    exact h.coherent.near i hi hE
  · rw [hdist i hi hE, UInt8.ofNat_toNat]

/-- No cursor is at `spare` slots from home where the keys are spread. -/
theorem Airborne.dib_lt_of_rows [DecidableEq K] {live : List K} {spare : Nat}
    (h : Airborne toU64 c gap f) (hl : ∀ k, f k ≠ none → k ∈ live)
    (hs : ∀ b < 2 ^ e, ∀ n < 2 ^ e, live.countP (inRow toU64 (2 ^ e) b n) ≤ 16 * n + spare) :
    c.dib < spare := by
  obtain ⟨a, n, hn, ⟨k₀, hk₀⟩, he, ks, hnodup, hlen, hks⟩ := h.flight.load
  rw [home_mod] at hk₀ he
  rw [← hk₀, home_eq_bucket k₀] at he
  obtain ⟨h16, -⟩ := bucket_of_home he
  rw [totalSize_eq] at hn
  have hsub : ks ⊆ live.filter (inRow toU64 (2 ^ e) (bucket toU64 (2 ^ e) k₀) (n / 16)) := by
    intro k hk
    obtain ⟨hlive, t, ht, hkt⟩ := hks k hk
    rw [home_mod, ← hk₀, home_eq_bucket k₀] at hkt
    obtain ⟨-, hb⟩ := bucket_of_home hkt
    refine List.mem_filter.mpr ⟨hl k hlive, decide_eq_true ?_⟩
    have h₀ := bucket_lt toU64 e k₀
    rw [hb, Nat.mod_add_mod, show bucket toU64 (2 ^ e) k₀ + t / 16 +
      (2 ^ e - bucket toU64 (2 ^ e) k₀) = t / 16 + 2 ^ e by omega, Nat.add_mod_right]
    exact Nat.le_trans (Nat.mod_le _ _) (Nat.div_le_div_right ht)
  have hle := (List.subperm_of_subset hnodup hsub).length_le
  rw [← List.countP_eq_length_filter] at hle
  have hcrowd := hs _ (bucket_lt toU64 e k₀) (n / 16) (by omega)
  rw [hlen] at hle
  show c.dib < spare
  have hdib : (⟨c.dib, c.key, c.val⟩ : Entry K V).dib = c.dib := rfl
  omega

theorem Airborne.dib_lt_of_spread [DecidableEq K] {calls : List (Call K V)} {spare : Nat}
    (h : Airborne toU64 c gap (lookup calls)) (hs : Spread toU64 (2 ^ e) spare calls) :
    c.dib < spare :=
  h.dib_lt_of_rows (fun _ => mem_liveKeys calls) hs

/-- The cursors of the second loop stay near if no group is skipped. -/
theorem groupArrivals_near (fuel : Nat) (h : Airborne toU64 c gap f)
    (hnear : ∀ (c : Cursor K V (2 ^ e)) gap, Airborne toU64 c gap f → c.dib < 128)
    (hskip : ∀ a ∈ groupArrivals toU64 fuel c, a.skips = false) :
    ∀ a ∈ groupArrivals toU64 fuel c, a.dib < 128 := by
  induction fuel generalizing c gap with
  | zero => exact fun a ha => absurd ha List.not_mem_nil
  | succ fuel ih =>
    rw [groupArrivals, if_pos h.dib_lt] at hskip ⊢
    rcases alignLoop_good 16 h (Nat.mod_lt _ (by decide)) with ⟨m, hl, -⟩ | ⟨c', g, hl, -, h16, ha⟩
    · simp only [hl]
      exact fun a ha => absurd ha List.not_mem_nil
    · simp only [hl] at hskip ⊢
      have hc := hnear c' g ha
      rcases ha.group h16 hc (hskip c' List.mem_cons_self) with ⟨m, hgr, -⟩ | ⟨c₂, g₂, hgr, -, ha₂⟩
      · simp only [hgr, List.mem_singleton]
        rintro a rfl
        exact hc
      · simp only [hgr] at hskip ⊢
        intro a hmem
        rcases List.mem_cons.mp hmem with rfl | hmem
        · exact hc
        · exact ih ha₂ (fun a hmem => hskip a (List.mem_cons_of_mem _ hmem)) a hmem

theorem homeLoop_inr : ∀ (fuel : Nat) {c c' : Cursor K V (2 ^ e)},
    homeLoop toU64 fuel c = .ok (.inr c') → 16 ≤ c'.dib
  | 0, c, c', h => by cases h
  | fuel + 1, c, c', h => by
    unfold homeLoop at h
    split at h
    · split at h
      · cases h
      · exact homeLoop_inr fuel h
    · next hge =>
      cases h
      exact Nat.le_of_not_lt hge

end

/-! ## Keys and buckets -/

section
variable {K V : Type} [DecidableEq K] {toU64 : K → UInt64} {e spare : Nat} {calls : List (Call K V)}

theorem Spread.mono {more : Nat} (h : Spread toU64 (2 ^ e) spare calls) (hle : spare ≤ more) :
    Spread toU64 (2 ^ e) more calls :=
  fun b hb n hn => Nat.le_trans (h b hb n hn) (Nat.add_le_add_left hle _)

theorem spread_of_few (h : (liveKeys calls).length ≤ spare) : Spread toU64 (2 ^ e) spare calls :=
  fun _ _ _ _ => Nat.le_trans (List.countP_le_length.trans h) (Nat.le_add_left _ _)

omit [DecidableEq K] in
theorem bucket_of_offset {f : K → UInt64} {k : K} {b n : Nat} (hb : b < 2 ^ e)
    (h : (bucket f (2 ^ e) k + (2 ^ e - b)) % 2 ^ e = n) :
    bucket f (2 ^ e) k = (b + n) % 2 ^ e := by
  rw [← h, Nat.add_mod_mod, show b + (bucket f (2 ^ e) k + (2 ^ e - b)) =
    bucket f (2 ^ e) k + 2 ^ e by omega, Nat.add_mod_right, Nat.mod_eq_of_lt (bucket_lt f e k)]

omit [DecidableEq K] in
theorem countP_inRow_succ (ks : List K) {b n : Nat} (hb : b < 2 ^ e) :
    ks.countP (inRow toU64 (2 ^ e) b (n + 1)) ≤ ks.countP (inRow toU64 (2 ^ e) b n) +
      ks.countP fun k => decide (bucket toU64 (2 ^ e) k = (b + (n + 1)) % 2 ^ e) := by
  induction ks with
  | nil => exact Nat.zero_le _
  | cons k ks ih =>
    have hlast := bucket_of_offset (n := n + 1) (k := k) (f := toU64) hb
    simp only [List.countP_cons, inRow, decide_eq_true_eq] at ih ⊢
    split <;> split <;> split <;> omega

omit [DecidableEq K] in
/-- Keys of which no more than 16 share a bucket are spread. -/
theorem rows_of_buckets {ks : List K} (h : ∀ b < 2 ^ e,
    ks.countP (fun k => decide (bucket toU64 (2 ^ e) k = b)) ≤ 16) :
    ∀ b < 2 ^ e, ∀ n < 2 ^ e, ks.countP (inRow toU64 (2 ^ e) b n) ≤ 16 * n + 16 := by
  intro b hb n hn
  induction n with
  | zero =>
    refine Nat.le_trans (List.countP_mono_left fun k _ hk => ?_) (h b hb)
    rw [inRow, decide_eq_true_eq, Nat.le_zero] at hk
    rw [decide_eq_true_eq, bucket_of_offset hb hk, Nat.add_zero, Nat.mod_eq_of_lt hb]
  | succ n ih =>
    have hrow := ih (by omega)
    have hlast := h ((b + (n + 1)) % 2 ^ e) (Nat.mod_lt _ (Nat.two_pow_pos e))
    calc ks.countP (inRow toU64 (2 ^ e) b (n + 1))
        ≤ ks.countP (inRow toU64 (2 ^ e) b n) + _ := countP_inRow_succ ks hb
      _ ≤ 16 * n + 16 + 16 := Nat.add_le_add hrow hlast
      _ = 16 * (n + 1) + 16 := by omega

theorem spread_of_buckets (h : ∀ b < 2 ^ e,
    (liveKeys calls).countP (fun k => decide (bucket toU64 (2 ^ e) k = b)) ≤ 16) :
    Spread toU64 (2 ^ e) 16 calls :=
  rows_of_buckets h

end

/-! ## Runs -/

section
variable {K V : Type} [DecidableEq K] {toU64 : K → UInt64} {e : Nat} {m : FlatHashMap K V (2 ^ e)}
  {xs calls : List (Call K V)} {c : Call K V}

/-- What `AddNode` carries around flies towards the map after it. -/
theorem Good.addArrivals_cases {f : K → Option V} (h : Good toU64 m f) {z : Nat}
    (hz : z < totalSize (2 ^ e)) (hfree : m.tags z = emptyMarker) {k : K} (v : V)
    (hk : f k = none) :
    m.addArrivals toU64 k v = [] ∨
    ∃ a gap, 16 ≤ a.dib ∧ Airborne toU64 a gap (Function.update f k (some v)) ∧
      m.addArrivals toU64 k v = groupArrivals toU64 (totalSize (2 ^ e) + 1) a := by
  rw [addArrivals, getVal_eq h k, hk]
  rcases h.firstLoop v hk hz hfree with ⟨m', hl, -⟩ | ⟨a, gap, hl, -, ha⟩
  · rw [hl]
    exact .inl rfl
  · rw [hl]
    exact .inr ⟨a, gap, homeLoop_inr _ hl, ha, rfl⟩

theorem arrivals_cases (h : Good toU64 m (lookup xs))
    (hlive : (liveKeys xs).length < totalSize (2 ^ e)) :
    m.arrivals toU64 c = [] ∨
    ∃ a gap, 16 ≤ a.dib ∧ Airborne toU64 a gap (lookup (xs ++ [c])) ∧
      m.arrivals toU64 c = groupArrivals toU64 (totalSize (2 ^ e) + 1) a := by
  cases c with
  | getVal k => exact .inl rfl
  | deleteNode k => exact .inl rfl
  | addNode k v =>
    cases hk : lookup xs k with
    | some w =>
      rw [arrivals, addArrivals, getVal_eq h k, hk]
      exact .inl rfl
    | none =>
      obtain ⟨z, hz, hfree⟩ := h.exists_free (fun k => mem_liveKeys xs) hlive
      rw [lookup_addNode, FiniteMap.addNode_eq_update hk]
      exact h.addArrivals_cases hz hfree v hk

/-- No entry is carried to a distance of 128 where the keys are spread and no group is skipped. -/
theorem staysNear_of_spread (h : Good toU64 m (lookup xs))
    (hlive : (liveKeys xs).length < totalSize (2 ^ e)) (hs : Spread toU64 (2 ^ e) 128 (xs ++ [c]))
    (hskip : NeverSkips toU64 m c) : StaysNear toU64 m c := by
  rw [StaysNear]
  rw [NeverSkips] at hskip
  rcases arrivals_cases h hlive with hnil | ⟨a, gap, -, ha, heq⟩
  · rw [hnil]
    exact fun a ha => absurd ha List.not_mem_nil
  · rw [heq] at hskip ⊢
    exact groupArrivals_near _ ha (fun c gap hc => hc.dib_lt_of_spread hs) hskip

/-- Nothing is carried past its home bucket where no bucket is the home of more than 16 keys. -/
theorem arrivals_of_spread (h : Good toU64 m (lookup xs))
    (hlive : (liveKeys xs).length < totalSize (2 ^ e))
    (hs : Spread toU64 (2 ^ e) 16 (xs ++ [c])) : m.arrivals toU64 c = [] := by
  rcases arrivals_cases h hlive with hnil | ⟨a, gap, h16, ha, -⟩
  · exact hnil
  · exact absurd (ha.dib_lt_of_spread hs) (Nat.not_lt.mpr h16)

variable [Inhabited K] [Inhabited V]

/-- **A run** on spread keys that skips no group goes through. -/
theorem run_good_of_spread (hlive : ∀ xs, xs <+: calls → (liveKeys xs).length < 16 * 2 ^ e)
    (hs : ∀ xs, xs <+: calls → Spread toU64 (2 ^ e) 128 xs)
    (hskip : Along (NeverSkips toU64) (call toU64) (new : FlatHashMap K V (2 ^ e)) calls) :
    ∃ m outs, run (call toU64) (new : FlatHashMap K V (2 ^ e)) calls = .ok (m, outs) ∧
      Good toU64 m (lookup calls) := by
  refine run_total (P := fun ys m _ => Good toU64 m (lookup ys)) new_good hskip ?_
  intro ys c m outs hy _ hg hc
  have hl := hlive ys ((List.prefix_append _ _).trans hy)
  have hlt : (liveKeys ys).length < totalSize (2 ^ e) := by rw [totalSize_eq]; omega
  obtain ⟨m', r, hm, hg', -⟩ := call_good hg hlt (staysNear_of_spread hg hlt (hs _ hy) hc) hc
  exact ⟨m', r, hm, hg'⟩

/-- **No group is skipped** where no bucket is the home of more than 16 keys. -/
theorem neverSkips_of_spread (hlive : ∀ xs, xs <+: calls → (liveKeys xs).length < 16 * 2 ^ e)
    (hs : ∀ xs, xs <+: calls → Spread toU64 (2 ^ e) 16 xs) :
    Along (NeverSkips toU64) (call toU64) (new : FlatHashMap K V (2 ^ e)) calls := by
  have hnil : ∀ {ys c} {m : FlatHashMap K V (2 ^ e)}, ys ++ [c] <+: calls →
      Good toU64 m (lookup ys) → m.arrivals toU64 c = [] := fun {ys c m} hy hg => by
    have hl := hlive ys ((List.prefix_append _ _).trans hy)
    exact arrivals_of_spread hg (by rw [totalSize_eq]; omega) (hs _ hy)
  intro xs c hx m bs hr
  -- the table so far is good: none of the calls before carried anything past a bucket either
  have hgood : ∃ m' bs', run (call toU64) (new : FlatHashMap K V (2 ^ e)) xs = .ok (m', bs') ∧
      Good toU64 m' (lookup xs) := by
    have hpre : Along (fun _ _ => True) (call toU64) (new : FlatHashMap K V (2 ^ e)) xs :=
      fun _ _ _ _ _ _ => trivial
    refine run_total (P := fun ys m _ => Good toU64 m (lookup ys)) new_good hpre ?_
    intro ys d m outs hy _ hg _
    have hy' := hy.trans ((List.prefix_append _ _).trans hx)
    have hl := hlive ys ((List.prefix_append _ _).trans hy')
    have harr := hnil hy' hg
    obtain ⟨m', r, hm, hg', -⟩ := call_good hg (by rw [totalSize_eq]; omega)
      (by rw [StaysNear, harr]; exact fun a ha => absurd ha List.not_mem_nil)
      (by rw [NeverSkips, harr]; exact fun a ha => absurd ha List.not_mem_nil)
    exact ⟨m', r, hm, hg'⟩
  obtain ⟨m', bs', hr', hg⟩ := hgood
  rw [hr, Except.ok.injEq, Prod.mk.injEq] at hr'
  rw [NeverSkips, hnil hx (hr'.1 ▸ hg)]
  exact fun a ha => absurd ha List.not_mem_nil

end

/-! ## Prices -/

/-- **Distances of prices**: in the map from prices to levels every live price is within 127 slots
of its home, under a tag that is its distance, if no `n + 1` buckets in a row are the home of more
than `16 * n + 128` live prices and no group is skipped. -/
theorem run_distances {V : Type} [Inhabited V] {calls : List (Call Int64 V)}
    (hlive : ∀ xs, xs <+: calls → (liveKeys xs).length ≤ meMaxPriceLevels)
    (hs : ∀ xs, xs <+: calls → Spread Int64.toUInt64 meFastMapSize 128 xs)
    (hskip : Along (NeverSkips Int64.toUInt64) (call Int64.toUInt64)
      (new : FlatHashMap Int64 V meFastMapSize) calls) :
    ∃ m outs, run (call Int64.toUInt64) (new : FlatHashMap Int64 V meFastMapSize) calls =
      .ok (m, outs) ∧ Exact Int64.toUInt64 m (lookup calls) := by
  obtain ⟨m, outs, hr, hg⟩ := run_good_of_spread (e := 10)
    (fun xs hx => Nat.lt_of_le_of_lt (hlive xs hx) (by decide)) hs hskip
  exact ⟨m, outs, hr, hg.exact⟩

/-- **Prices that stay at home**: it is enough that no bucket is ever the home of more than 16 live
prices, in whatever order they come and go. -/
theorem run_distances_of_buckets {V : Type} [Inhabited V] {calls : List (Call Int64 V)}
    (hlive : ∀ xs, xs <+: calls → (liveKeys xs).length ≤ meMaxPriceLevels)
    (hb : ∀ xs, xs <+: calls → ∀ b < meFastMapSize,
      (liveKeys xs).countP (fun k => decide (bucket Int64.toUInt64 meFastMapSize k = b)) ≤ 16) :
    ∃ m outs, run (call Int64.toUInt64) (new : FlatHashMap Int64 V meFastMapSize) calls =
      .ok (m, outs) ∧ Exact Int64.toUInt64 m (lookup calls) := by
  have hlt : ∀ xs, xs <+: calls → (liveKeys xs).length < 16 * 2 ^ 10 :=
    fun xs hx => Nat.lt_of_le_of_lt (hlive xs hx) (by decide)
  have hs : ∀ xs, xs <+: calls → Spread Int64.toUInt64 (2 ^ 10) 16 xs :=
    fun xs hx => spread_of_buckets (hb xs hx)
  obtain ⟨m, outs, hr, hg⟩ := run_good_of_spread (e := 10) hlt
    (fun xs hx => (hs xs hx).mono (by decide)) (neverSkips_of_spread hlt hs)
  exact ⟨m, outs, hr, hg.exact⟩

/-- 17 prices of one bucket, the last of which overflows into the next, and one of them deleted. -/
def overflowCalls : List (Call Int64 Nat) :=
  ((List.range 17).map fun i => .addNode (Int64.ofNat (1024 * (i + 1))) i) ++ [.deleteNode 2048]

theorem run_distances_overflow : ∃ m outs,
    run (call Int64.toUInt64) (new : FlatHashMap Int64 Nat meFastMapSize) overflowCalls =
      .ok (m, outs) ∧ Exact Int64.toUInt64 m (lookup overflowCalls) := by
  have hfew : ∀ xs ∈ overflowCalls.inits, (liveKeys xs).length ≤ 17 := by decide +kernel
  have hfew' : ∀ xs, xs <+: overflowCalls → (liveKeys xs).length ≤ 17 := fun xs hx =>
    hfew xs ((List.mem_inits _ _).mpr hx)
  have hskip : Along (NeverSkips Int64.toUInt64) (call Int64.toUInt64)
      (new : FlatHashMap Int64 Nat meFastMapSize) overflowCalls := by
    decide +kernel
  exact run_distances (fun xs hx => (hfew' xs hx).trans (by decide))
    (fun xs hx => spread_of_few (e := 10) ((hfew' xs hx).trans (by decide))) hskip

/-- One price in each of the buckets 1 to 7, then 17 in bucket 0. -/
def farCalls : List (Call Int64 Nat) :=
  ([829, 634, 439, 244, 49, 878, 683].map fun p => .addNode p 0) ++
    (List.range 17).map fun i => .addNode (Int64.ofNat (1024 * (i + 1))) 0

/-- Only 24 prices are live, but the last one was carried past seven groups whose first slots are
taken: it lies 128 slots from its home, its tag says that the slot is free, and it cannot be found.
-/
theorem skipped_price_at_marker :
    (∀ xs, xs <+: farCalls → (liveKeys xs).length ≤ meMaxPriceLevels) ∧
      lookup farCalls 17408 = some 0 ∧
      ∃ m outs, run (call Int64.toUInt64) (new : FlatHashMap Int64 Nat meFastMapSize) farCalls =
        .ok (m, outs) ∧ m.keys 128 = 17408 ∧ distance Int64.toUInt64 m 128 = 128 ∧
        m.tags 128 = emptyMarker ∧ m.getVal Int64.toUInt64 17408 = none := by
  have hlive : ∀ xs ∈ farCalls.inits, (liveKeys xs).length ≤ meMaxPriceLevels := by decide +kernel
  exact ⟨fun xs hx => hlive xs ((List.mem_inits _ _).mpr hx), by decide +kernel,
    exists_of_succeeds (by decide +kernel)⟩

end FlatHashMap

end Naoto
