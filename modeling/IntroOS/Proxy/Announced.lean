import IntroOS.Proxy.Handlers

/-! # What `handle_with_curl` announces and what it sends

Every `gfs_send` of the loop has the whole buffer, from its beginning. So the client gets the
body once only if one call takes all of it; after a part it gets the beginning again.

* `returns_sendRound`: where the loop ends, for any results of `gfs_send`;
* `resent_eq`: what a body sent from its beginning again and again must be to be the body;
* `curl_announces_iff`: when the handler sends what it announces.
-/

namespace IntroOS.Proxy

/-! ## A list sent again and again -/

section Resent

variable {α : Type*}

/-- The first `n i` elements of `l`, for every `i < k` in turn. -/
def resent (l : List α) (n : Nat → Nat) : Nat → List α
  | 0 => []
  | k + 1 => resent l n k ++ l.take (n k)

theorem resent_zero {l : List α} {n : Nat → Nat} {k : Nat} (h : ∀ i < k, n i = 0) :
    resent l n k = [] := by
  induction k with
  | zero => rfl
  | succ k ih =>
    have hk : n k = 0 := h k (Nat.lt_succ_self k)
    rw [resent, ih (fun i hi => h i (Nat.lt_succ_of_lt hi)), hk, List.take_zero, List.append_nil]

/-- Nothing was sent yet, or a first part and then nothing or the first element again. -/
theorem resent_cases (a : α) (t : List α) (n : Nat → Nat) (k : Nat) :
    (resent (a :: t) n k = [] ∧ ∀ i < k, n i = 0) ∨
      ∃ j < k, (∀ i < j, n i = 0) ∧ 0 < n j ∧
        ∃ rest, resent (a :: t) n k = (a :: t).take (n j) ++ rest ∧ (rest = [] ∨ a ∈ rest) := by
  induction k with
  | zero => exact Or.inl ⟨rfl, fun i hi => absurd hi (Nat.not_lt_zero i)⟩
  | succ k ih =>
    have hhead : 0 < n k → a ∈ (a :: t).take (n k) := by
      intro hpos
      obtain ⟨m, hm⟩ : ∃ m, n k = m + 1 := ⟨n k - 1, by omega⟩
      rw [hm, List.take_succ_cons]
      exact List.mem_cons_self
    rcases ih with ⟨hnil, hzero⟩ | ⟨j, hj, hzero, hpos, rest, heq, hrest⟩
    · by_cases hk : n k = 0
      · left
        refine ⟨by rw [resent, hnil, hk, List.take_zero, List.append_nil], ?_⟩
        intro i hi
        rcases Nat.lt_succ_iff_lt_or_eq.mp hi with hlt | rfl
        · exact hzero i hlt
        · exact hk
      · right
        refine ⟨k, Nat.lt_succ_self k, hzero, by omega, [], ?_, Or.inl rfl⟩
        rw [resent, hnil, List.nil_append, List.append_nil]
    · right
      refine ⟨j, by omega, hzero, hpos, rest ++ (a :: t).take (n k), ?_, ?_⟩
      · rw [resent, heq, List.append_assoc]
      · by_cases hk : n k = 0
        · rw [hk, List.take_zero, List.append_nil]
          exact hrest
        · exact Or.inr (List.mem_append_right _ (hhead (by omega)))

/-- The list itself, if its first element is there only once: the first part is all of it. -/
theorem resent_eq {a : α} {t : List α} (ha : a ∉ t) {n : Nat → Nat} {k : Nat}
    (h : resent (a :: t) n k = a :: t) :
    ∃ j < k, (∀ i < j, n i = 0) ∧ (a :: t).length ≤ n j := by
  rcases resent_cases a t n k with ⟨hnil, _⟩ | ⟨j, hj, hzero, hpos, rest, heq, hrest⟩
  · rw [hnil] at h
    cases h
  · refine ⟨j, hj, hzero, ?_⟩
    obtain ⟨m, hm⟩ : ∃ m, n j = m + 1 := ⟨n j - 1, by omega⟩
    rw [h, hm, List.take_succ_cons, List.cons_append, List.cons.injEq] at heq
    have hsplit : t.take m ++ t.drop m = t.take m ++ rest := by
      rw [List.take_append_drop]
      exact heq.2
    have hdrop : t.drop m = rest := List.append_cancel_left hsplit
    rcases hrest with hrest | hmem
    · rw [hrest, List.drop_eq_nil_iff] at hdrop
      rw [List.length_cons, hm]
      omega
    · rw [← hdrop] at hmem
      exact absurd (List.mem_of_mem_drop hmem) ha

end Resent

/-! ## The send loop -/

theorem foldl_writeMemoryCallback (chunks : List Bytes) (mem : Bytes) :
    chunks.foldl writeMemoryCallback mem = mem ++ chunks.flatten := by
  induction chunks generalizing mem with
  | nil => simp
  | cons data chunks ih =>
    rw [List.foldl_cons, ih, List.flatten_cons]
    show (mem ++ data) ++ chunks.flatten = _
    rw [List.append_assoc]

/-- What libcurl gave to the callback. -/
def Download.body (d : Download) : Bytes := d.chunks.flatten

theorem Download.output_eq (d : Download) : d.output = d.body := by
  show d.chunks.foldl writeMemoryCallback [] = _
  rw [foldl_writeMemoryCallback, List.nil_append]
  rfl

/-- The results of the first `k` calls of `gfs_send`, added up. -/
def Download.total (d : Download) : Nat → Int
  | 0 => 0
  | k + 1 => d.total k + d.send k

/-- The results do not add up to the content length after `k` calls, nor below 0. -/
def Download.Goes (d : Download) (cl : Int) (k : Nat) : Prop :=
  0 ≤ d.total k ∧ (toDouble (d.total k).toNat : Int) < cl

/-- The variables of the loop after `k` rounds. -/
def Download.after (d : Download) (k : Nat) : Sending :=
  ⟨toSize (d.total k), k, resent d.output.zipIdx (fun i => (d.send i).toNat) k⟩

theorem toSize_of_nonneg {z : Int} (h : 0 ≤ z) (hlt : z < 2 ^ 64) : toSize z = z.toNat := by
  unfold toSize
  omega

theorem toSize_add (a b : Int) : (toSize a + toSize b) % 2 ^ 64 = toSize (a + b) := by
  unfold toSize
  omega

theorem toInt64_toSize (z : Int) : toInt64 (toSize z) = toInt64 z := by
  unfold toInt64 toSize
  omega

section SendLoop

variable {d : Download} {cl : Int}

/-- A double that is at most 2^63 is not above the conversion of a larger number. -/
theorem le_toDouble (hle : cl ≤ 2 ^ 63) {n : Nat} (h : 2 ^ 63 ≤ n) : cl ≤ toDouble n := by
  have hmono : toDouble (2 ^ 63) ≤ toDouble n := toDouble_mono h
  rw [toDouble_pow] at hmono
  omega

theorem Download.Goes.lt (hle : cl ≤ 2 ^ 63) {k : Nat} (h : d.Goes cl k) : d.total k < 2 ^ 63 := by
  rcases h with ⟨hnonneg, hlt⟩
  by_contra hge
  have := le_toDouble hle (n := (d.total k).toNat) (by omega)
  omega

/-- As long as the loop goes on, there is no overflow. -/
theorem total_range (hle : cl ≤ 2 ^ 63) {k : Nat} (h : ∀ i < k, d.Goes cl i) :
    -1 ≤ d.total k ∧ d.total k < 2 ^ 64 := by
  cases k with
  | zero =>
    show -1 ≤ (0 : Int) ∧ (0 : Int) < 2 ^ 64
    omega
  | succ k =>
    have hgoes := h k (Nat.lt_succ_self k)
    have hlt := hgoes.lt hle
    have hnonneg := hgoes.1
    have hge := d.send_ge k
    have hsend := d.send_le k
    have hfits := d.fits
    show -1 ≤ d.total k + d.send k ∧ d.total k + d.send k < 2 ^ 64
    omega

/-- The loop ends after the first calls whose results add up to the content length, or below
0, and only then. -/
theorem returns_sendRound (hle : cl ≤ 2 ^ 63) {r : Sending} :
    Returns (d.sendRound cl) ⟨0, 0, []⟩ r ↔
      ∃ k, (∀ i < k, d.Goes cl i) ∧ ¬ d.Goes cl k ∧ r = d.after k := by
  have hround : ∀ k, (∀ i < k, d.Goes cl i) → d.Goes cl k →
      d.sendRound cl (d.after k) = .inl (d.after (k + 1)) := by
    intro k hbefore hk
    have hsize : toSize (d.total k) = (d.total k).toNat :=
      toSize_of_nonneg hk.1 (total_range hle hbefore).2
    have htest : (toDouble (d.after k).transferred : Int) < cl := by
      show (toDouble (toSize (d.total k)) : Int) < cl
      rw [hsize]
      exact hk.2
    unfold Download.sendRound
    rw [if_neg (not_not_intro htest)]
    show Sum.inl (Sending.mk ((toSize (d.total k) + toSize (d.send k)) % 2 ^ 64) (k + 1) _) = _
    rw [toSize_add]
    rfl
  have hexit : ∀ k, (∀ i < k, d.Goes cl i) → ¬ d.Goes cl k →
      d.sendRound cl (d.after k) = .inr (d.after k) := by
    intro k hbefore hk
    have hrange := total_range hle hbefore
    have htest : ¬ (toDouble (d.after k).transferred : Int) < cl := by
      show ¬ (toDouble (toSize (d.total k)) : Int) < cl
      by_cases hneg : d.total k < 0
      · -- the sum wrapped around
        have hlarge : 2 ^ 63 ≤ toSize (d.total k) := by
          unfold toSize
          omega
        exact not_lt.mpr (le_toDouble hle hlarge)
      · have hnonneg : 0 ≤ d.total k := by omega
        rw [toSize_of_nonneg hnonneg hrange.2]
        intro hlt
        exact hk ⟨hnonneg, hlt⟩
    unfold Download.sendRound
    rw [if_pos htest]
  exact returns_iff_of_trace (f := d.after) hround hexit

/-- What the handler returns then: a number that is not negative only if it is the sum. -/
theorem ret_nonneg_iff (hle : cl ≤ 2 ^ 63) {k : Nat} (h : ∀ i < k, d.Goes cl i) :
    0 ≤ toInt64 (d.after k).transferred ↔ 0 ≤ d.total k ∧ d.total k < 2 ^ 63 := by
  have hrange := total_range hle h
  have hret : toInt64 (d.after k).transferred = toInt64 (d.total k) := toInt64_toSize _
  rw [hret]
  unfold toInt64
  omega

end SendLoop

/-! ## Announced and sent -/

/-- Either no OK header and an error or FILE_NOT_FOUND, or an OK header; if the returned value
is not negative, then exactly as many bytes as announced were sent, and they are `body`. -/
def Outcome.Announces (body : Bytes) (o : Outcome Placed) : Prop :=
  ((∀ n, Header.ok n ∉ o.headers) ∧ (o.ret < 0 ∨ Header.fileNotFound ∈ o.headers)) ∨
    ∃ n, o.headers = [.ok n] ∧ (0 ≤ o.ret → o.sent = body.zipIdx ∧ n = body.length)

/-- `handle_with_curl` ends and sends what it announces. -/
def CurlAnnounces (curl : Bytes → Download) (sendheader : Int) (dataDir path : Bytes) : Prop :=
  Ends (handleWithCurl curl sendheader dataDir path)
    (Outcome.Announces (curl (dataDir ++ path)).body)

/-- The results of `gfs_send` add up to less than 0, or to more than an `ssize_t` holds, and
to no more than the content length before that. -/
def Download.Fails (d : Download) (cl : Int) : Prop :=
  ∃ k, (∀ i < k, d.Goes cl i) ∧ (d.total k < 0 ∨ 2 ^ 63 ≤ d.total k)

/-- The content length is that of the body, and the first `gfs_send` that sends anything sends
all of it. -/
def Download.Whole (d : Download) (cl : Int) : Prop :=
  cl = d.body.length ∧ (d.body = [] ∨ ∃ k, (∀ i < k, d.send i = 0) ∧ d.send k = d.body.length)

/-- What libcurl and `gfs_send` must do for the handler to send what it announces. -/
def Download.Exact (d : Download) : Prop :=
  if ¬ d.handle then toInt64 d.junkTransferred < 0
  else if ¬ d.performed then d.junkPositive = true
  else
    match d.contentLength with
    | none => True
    | some cl => cl.val < 0 ∨ d.Fails cl.val ∨ d.Whole cl.val

theorem announces_silent {body : Bytes} {ret : Int} :
    Outcome.Announces body ⟨[], [], ret⟩ ↔ ret < 0 := by
  constructor
  · rintro (⟨_, hneg | hmem⟩ | ⟨n, heq, _⟩)
    · exact hneg
    · cases hmem
    · cases heq
  · intro hneg
    exact Or.inl ⟨fun n hmem => (List.not_mem_nil hmem).elim, Or.inl hneg⟩

theorem announces_notFound (body : Bytes) (ret : Int) :
    Outcome.Announces body ⟨[.fileNotFound], [], ret⟩ := by
  refine Or.inl ⟨?_, Or.inr List.mem_cons_self⟩
  intro n hmem
  cases List.mem_singleton.mp hmem

theorem announces_ok {body : Bytes} {n : Nat} {sent : List Placed} {ret : Int} :
    Outcome.Announces body ⟨[.ok n], sent, ret⟩ ↔
      (0 ≤ ret → sent = body.zipIdx ∧ n = body.length) := by
  constructor
  · rintro (⟨hno, _⟩ | ⟨m, heq, hsent⟩)
    · exact absurd List.mem_cons_self (hno n)
    · cases heq
      exact hsent
  · intro h
    exact Or.inr ⟨n, rfl, h⟩

section Whole

variable {d : Download} {cl : Int}

/-- The sum stays 0 while nothing is sent. -/
theorem total_zero {k : Nat} (h : ∀ i < k, d.send i = 0) : d.total k = 0 := by
  induction k with
  | zero => rfl
  | succ k ih =>
    show d.total k + d.send k = 0
    rw [ih (fun i hi => h i (Nat.lt_succ_of_lt hi)), h k (Nat.lt_succ_self k)]
    rfl

/-- Results that send nothing and keep the sum from falling below 0 are 0. -/
theorem send_zero {k : Nat} (hsend : ∀ i < k, (d.send i).toNat = 0)
    (hnonneg : ∀ i ≤ k, 0 ≤ d.total i) : ∀ i < k, d.send i = 0 := by
  intro i
  induction i using Nat.strong_induction_on with
  | _ i ih =>
    intro hi
    have hbefore : d.total i = 0 := total_zero fun j hj => ih j hj (by omega)
    have hafter : 0 ≤ d.total i + d.send i := hnonneg (i + 1) hi
    have hnat := hsend i hi
    omega

/-- The body went out once, and its length is the content length: then it went out at once. -/
theorem Download.Whole.of_sent {k : Nat} (hnonneg : ∀ i ≤ k, 0 ≤ d.total i)
    (hsent : (d.after k).sent = d.body.zipIdx) (hlen : cl = d.body.length) : d.Whole cl := by
  refine ⟨hlen, ?_⟩
  have hsent : resent d.output.zipIdx (fun i => (d.send i).toNat) k = d.body.zipIdx := hsent
  rw [d.output_eq] at hsent
  cases hbody : d.body with
  | nil => exact Or.inl rfl
  | cons b rest =>
    right
    rw [hbody, List.zipIdx_cons] at hsent
    -- the first byte has its place only once
    have hfresh : (b, 0) ∉ rest.zipIdx (0 + 1) := by
      intro hmem
      have := List.le_snd_of_mem_zipIdx hmem
      omega
    rcases resent_eq hfresh hsent with ⟨j, hj, hzero, hle⟩
    refine ⟨j, send_zero hzero (fun i hi => hnonneg i (by omega)), ?_⟩
    have hall := d.send_le j
    have hbody : d.chunks.flatten = b :: rest := hbody
    rw [hbody] at hall
    rw [List.length_cons, List.length_zipIdx] at hle
    rw [List.length_cons] at hall ⊢
    omega

/-- A body that went out at once, and then the loop is over. -/
theorem Download.Whole.ends (hnonneg : 0 ≤ cl) (hdouble : toDouble cl.toNat = cl.toNat)
    (h : d.Whole cl) :
    ∃ k, (∀ i < k, d.Goes cl i) ∧ ¬ d.Goes cl k ∧ (d.after k).sent = d.body.zipIdx := by
  rcases h with ⟨hlen, hempty | ⟨k, hzero, hall⟩⟩
  · refine ⟨0, fun i hi => absurd hi (Nat.not_lt_zero i), ?_, ?_⟩
    · rintro ⟨_, hlt⟩
      rw [hlen, hempty] at hlt
      have : (0 : Int) ≤ toDouble (d.total 0).toNat := Int.natCast_nonneg _
      exact absurd hlt (not_lt.mpr this)
    · rw [hempty]
      rfl
  · -- nothing was sent before
    have hbefore : ∀ i ≤ k, d.total i = 0 := by
      intro i hi
      exact total_zero fun j hj => hzero j (by omega)
    have htotal : d.total (k + 1) = cl := by
      show d.total k + d.send k = cl
      rw [hbefore k (le_refl k), hall, hlen]
      omega
    by_cases hpos : 0 < cl
    · refine ⟨k + 1, ?_, ?_, ?_⟩
      · intro i hi
        have hzero := hbefore i (by omega)
        unfold Download.Goes
        rw [hzero]
        exact ⟨le_refl 0, hpos⟩
      · rintro ⟨_, hlt⟩
        rw [htotal, hdouble] at hlt
        omega
      · show resent d.output.zipIdx (fun i => (d.send i).toNat) k ++ _ = _
        have hnone : ∀ i < k, (d.send i).toNat = 0 := fun i hi => by rw [hzero i hi]; rfl
        rw [resent_zero hnone, List.nil_append, d.output_eq]
        apply List.take_of_length_le
        show d.body.zipIdx.length ≤ (d.send k).toNat
        rw [List.length_zipIdx]
        omega
    · refine ⟨0, fun i hi => absurd hi (Nat.not_lt_zero i), ?_, ?_⟩
      · rintro ⟨_, hlt⟩
        exact hpos (lt_of_le_of_lt (by omega) hlt)
      · have hempty : d.body = [] := List.length_eq_zero_iff.mp (by omega)
        rw [hempty]
        rfl

/-- What the loop sends after an OK header. -/
theorem sendLoop_announces_iff (hle : cl ≤ 2 ^ 63) (hnonneg : 0 ≤ cl)
    (hdouble : toDouble cl.toNat = cl.toNat) :
    (∃ s, Returns (d.sendRound cl) ⟨0, 0, []⟩ s ∧
      (0 ≤ toInt64 s.transferred → s.sent = d.body.zipIdx ∧ toSize cl = d.body.length)) ↔
    d.Fails cl ∨ d.Whole cl := by
  have hsize : toSize cl = cl.toNat := toSize_of_nonneg hnonneg (by omega)
  constructor
  · rintro ⟨s, hs, hsent⟩
    rcases (returns_sendRound hle).mp hs with ⟨k, hgoes, hstop, rfl⟩
    by_cases hsum : 0 ≤ d.total k ∧ d.total k < 2 ^ 63
    · right
      have hexact := hsent ((ret_nonneg_iff hle hgoes).mpr hsum)
      have htotals : ∀ i ≤ k, 0 ≤ d.total i := by
        intro i hi
        rcases Nat.lt_or_eq_of_le hi with hlt | rfl
        · exact (hgoes i hlt).1
        · exact hsum.1
      apply Download.Whole.of_sent htotals hexact.1
      have hlen := hexact.2
      omega
    · left
      exact ⟨k, hgoes, by omega⟩
  · rintro (⟨k, hgoes, hsum⟩ | hwhole)
    · have hstop : ¬ d.Goes cl k := by
        intro hk
        have hlt := hk.lt hle
        have := hk.1
        omega
      refine ⟨_, (returns_sendRound hle).mpr ⟨k, hgoes, hstop, rfl⟩, ?_⟩
      intro hret
      have := (ret_nonneg_iff hle hgoes).mp hret
      omega
    · rcases hwhole.ends hnonneg hdouble with ⟨k, hgoes, hstop, hsent⟩
      refine ⟨_, (returns_sendRound hle).mpr ⟨k, hgoes, hstop, rfl⟩, ?_⟩
      intro _
      have hlen := hwhole.1
      exact ⟨hsent, by omega⟩

end Whole

/-- **Announced and sent.** `handle_with_curl` ends and sends what it announces exactly if the
URL fits into the buffer and libcurl and `gfs_send` do what `Download.Exact` says. -/
theorem curl_announces_iff (curl : Bytes → Download) (sendheader : Int) (dataDir path : Bytes) :
    CurlAnnounces curl sendheader dataDir path ↔
      dataDir.length + path.length < curlBufSize ∧ (curl (dataDir ++ path)).Exact := by
  obtain ⟨d, hd⟩ : ∃ d, curl (dataDir ++ path) = d := ⟨_, rfl⟩
  unfold CurlAnnounces
  rw [hd]
  by_cases hfits : dataDir.length + path.length < curlBufSize
  · rw [ends_curl hfits hd, and_iff_right hfits]
    unfold Download.Exact
    split
    · exact announces_silent
    · split
      · rw [announces_silent]
        -- a junk length above 0 leads into the loop, and to its error exit
        cases d.junkPositive
        · decide
        · decide
      · cases d.contentLength with
        | none =>
          have hneg : serverFailure < 0 := by decide
          exact ⟨fun _ => trivial, fun _ => announces_silent.mpr hneg⟩
        | some cl =>
          dsimp only
          split
          · rename_i hneg
            exact ⟨fun _ => Or.inl hneg, fun _ => announces_notFound _ _⟩
          · rename_i hneg
            simp only [announces_ok]
            rw [or_iff_right hneg]
            apply sendLoop_announces_iff cl.le (by omega)
            exact cl.double _ (by omega)
  · constructor
    · intro hends
      exact absurd hends (not_ends_curl hfits)
    · rintro ⟨hlt, _⟩
      exact absurd hlt hfits

/-- Three bytes; the first `gfs_send` takes one of them, and the next one two. -/
def shortSend : Download where
  handle := true
  junkTransferred := 0
  chunks := [ascii "abc"]
  performed := true
  junkPositive := false
  contentLength := some ⟨3, by decide, by
    intro n hn
    obtain rfl : n = 3 := by omega
    decide⟩
  send k := if k = 0 then 1 else 2
  fits := by decide
  send_ge k := by split <;> omega
  send_le k := by
    have hlen : [ascii "abc"].flatten.length = 3 := by decide
    rw [hlen]
    split <;> omega

/-- A short count: the client gets the beginning of the body again, and not its end. -/
theorem curl_sends_again :
    ¬ ∀ (curl : Bytes → Download) (sendheader : Int) (dataDir path : Bytes),
      dataDir.length + path.length < curlBufSize → CurlAnnounces curl sendheader dataDir path := by
  intro h
  have hfits : (ascii "host").length + (ascii "/f").length < curlBufSize := by decide
  have hends := h (fun _ => shortSend) 0 _ _ hfits
  rcases (ends_curl hfits rfl).mp hends with ⟨s, hs, hannounces⟩
  have hrun : Returns (shortSend.sendRound 3) ⟨0, 0, []⟩ ⟨3, 2, [(97, 0), (97, 0), (98, 1)]⟩ :=
    ⟨3, by decide⟩
  obtain rfl := hs.unique hrun
  have hsent := announces_ok.mp hannounces (by decide)
  exact absurd hsent.1 (by decide)

end IntroOS.Proxy
