import IntroOS.Echo.Protocol

/-! # When everybody gets an echo

The programs take it that every `send` and `recv` has the whole message. In runs where this is so
and no call fails, a client that has something to send gets it back, in any order of the calls; a
client with an empty message does not, and keeps the server to itself. The server's buffer is not
initialised; its last byte is taken to be 0.

* `Whole`: such runs;
* `LiveInv`: where a message is between its client and its client;
* `Blocked`: where an empty message leads, and nothing leads out of there;
* `echo_settles_iff`: every schedule ends with all clients served exactly if no message is empty.
-/

namespace IntroOS.Echo

variable {C : Type*} [DecidableEq C] {message : C → Bytes} {s s' : St C}

/-- No call fails, and `send` and `recv` take all there is, if it fits. -/
def Whole (message : C → Bytes) (s : St C) : Act C → Prop
  | .connect _ | .accept => True
  | .send c n => n = (message c).length
  | .recv c n => n = (s.link c).down.length
  | .serverRecv n => ∀ c, s.server = .receiving c → n = min (bufSize - 1) (s.link c).up.length
  | .serverSend n => ∀ c numBytes, s.server = .replying c numBytes → n = numBytes
  | .sendFails _ | .recvFails _ | .acceptFails | .serverRecvFails => False

/-- Everybody is served. -/
def Served (message : C → Bytes) (s : St C) : Prop :=
  s.server = .accepting ∧ s.pending = [] ∧ ∀ c, s.client c = .printed (echoed (message c))

/-! ## Where a message is -/

/-- The message is with the server, or on its way there or back. -/
inductive Sent (message : C → Bytes) (s : St C) (c : C) : Prop where
  | up (hwaits : c ∈ s.pending ∨ s.server = .receiving c) (hup : (s.link c).up = message c)
  | server (n : Nat) (hs : s.server = .replying c n)
  | down (hanswered : ¬ s.Open c) (hdown : (s.link c).down = echoed (message c))

structure LiveInv (message : C → Bytes) (s : St C) : Prop where
  own : Own message s
  running : s.server.running = true
  length : s.buffer.length = bufSize
  closes : s.buffer.getLast? = some 0
  fresh : ∀ c, s.client c = .start ∨ s.Open c →
    (s.link c).upClosed = false ∧ (s.link c).downClosed = false
  connected : ∀ c, s.client c = .connected → c ∈ s.pending ∨ s.server = .receiving c
  sent : ∀ c, s.client c = .sent → Sent message s c
  replying : ∀ c n, s.server = .replying c n → s.buffer.take n = echoed (message c)
  printed : ∀ c string, s.client c = .printed string → string = echoed (message c) ∧ ¬ s.Open c
  left : ∀ c, s.client c ≠ .exited

omit [DecidableEq C] in
theorem live_init (message : C → Bytes) (hs : s.Start) (hnul : s.buffer.getLast? = some 0) :
    LiveInv message s := by
  have hown := own_init message hs
  rcases hs with ⟨hclient, hlink, hpending, hserver, hlength⟩
  refine ⟨hown, ?_, hlength, hnul, ?_, ?_, ?_, ?_, ?_, ?_⟩
  · rw [hserver]
    rfl
  · intro c _
    rw [hlink]
    exact ⟨rfl, rfl⟩
  · intro c hc
    rw [hclient] at hc
    cases hc
  · intro c hc
    rw [hclient] at hc
    cases hc
  · intro c n hc
    rw [hserver] at hc
    cases hc
  · intro c string hc
    rw [hclient] at hc
    cases hc
  · intro c hc
    rw [hclient] at hc
    cases hc

/-! ## The clients -/

theorem LiveInv.connect (h : LiveInv message s) {c : C} (hc : s.client c = .start) :
    LiveInv message { s with
      client := Function.update s.client c .connected
      pending := s.pending ++ [c] } := by
  have hopen : ∀ c', c' ∈ s.pending ++ [c] ∨ s.server.serving = some c' → c' ≠ c → s.Open c' := by
    rintro c' (hmem | hserving) hne
    · rcases List.mem_append.mp hmem with hmem | hmem
      · exact Or.inl hmem
      · exact absurd (List.mem_singleton.mp hmem) hne
    · exact Or.inr hserving
  refine ⟨h.own.connect hc, h.running, h.length, h.closes, ?_, ?_, ?_, h.replying, ?_, ?_⟩
  · intro c' hc'
    by_cases heq : c' = c
    · exact heq ▸ h.fresh c (Or.inl hc)
    · simp only [Function.update_of_ne heq] at hc'
      exact h.fresh c' (hc'.imp id fun hopen' => hopen c' hopen' heq)
  · intro c' hc'
    by_cases heq : c' = c
    · rw [heq]
      exact Or.inl (List.mem_append_right _ (List.mem_singleton_self c))
    · simp only [Function.update_of_ne heq] at hc'
      exact (h.connected c' hc').imp (List.mem_append_left _) id
  · intro c' hc'
    by_cases heq : c' = c
    · subst heq
      simp only [Function.update_self] at hc'
      cases hc'
    · simp only [Function.update_of_ne heq] at hc'
      cases h.sent c' hc' with
      | up hwaits hup => exact .up (hwaits.imp (List.mem_append_left _) id) hup
      | server n hs => exact .server n hs
      | down hanswered hdown => exact .down (fun hopen' => hanswered (hopen c' hopen' heq)) hdown
  · intro c' string hc'
    by_cases heq : c' = c
    · subst heq
      simp only [Function.update_self] at hc'
      cases hc'
    · simp only [Function.update_of_ne heq] at hc'
      obtain ⟨hstring, hanswered⟩ := h.printed c' string hc'
      exact ⟨hstring, fun hopen' => hanswered (hopen c' hopen' heq)⟩
  · intro c'
    by_cases heq : c' = c
    · subst heq
      simp only [Function.update_self]
      exact nofun
    · simp only [Function.update_of_ne heq]
      exact h.left c'

/-- A client sends its message, or prints what has come back. -/
theorem LiveInv.client (h : LiveInv message s) {c : C} {x : Client} {l : Link}
    (hown : Own message { s with
      client := Function.update s.client c x
      link := Function.update s.link c l })
    (hx : (x = .sent ∧ l.up = message c ∧ l.upClosed = false ∧ l.downClosed = (s.link c).downClosed ∧
        (c ∈ s.pending ∨ s.server = .receiving c)) ∨
      (x = .printed (echoed (message c)) ∧ ¬ s.Open c)) :
    LiveInv message { s with
      client := Function.update s.client c x
      link := Function.update s.link c l } := by
  refine ⟨hown, h.running, h.length, h.closes, ?_, ?_, ?_, h.replying, ?_, ?_⟩
  · intro c' hc'
    by_cases heq : c' = c
    · subst heq
      simp only [Function.update_self] at hc' ⊢
      rcases hx with ⟨rfl, _, hclosed, hdown, _⟩ | ⟨rfl, hanswered⟩
      · have hopen : s.Open c' := hc'.resolve_left nofun
        rw [hclosed, hdown]
        exact ⟨rfl, (h.fresh c' (Or.inr hopen)).2⟩
      · exact absurd (hc'.resolve_left nofun) hanswered
    · simp only [Function.update_of_ne heq] at hc' ⊢
      exact h.fresh c' hc'
  · intro c' hc'
    by_cases heq : c' = c
    · subst heq
      simp only [Function.update_self] at hc'
      rcases hx with ⟨rfl, _⟩ | ⟨rfl, _⟩
      · cases hc'
      · cases hc'
    · simp only [Function.update_of_ne heq] at hc'
      exact h.connected c' hc'
  · intro c' hc'
    by_cases heq : c' = c
    · subst heq
      simp only [Function.update_self] at hc'
      rcases hx with ⟨rfl, hup, _, _, hwaits⟩ | ⟨rfl, _⟩
      · refine .up hwaits ?_
        simp only [Function.update_self]
        exact hup
      · cases hc'
    · simp only [Function.update_of_ne heq] at hc'
      cases h.sent c' hc' with
      | up hwaits hup =>
        refine .up hwaits ?_
        simp only [Function.update_of_ne heq]
        exact hup
      | server n hs => exact .server n hs
      | down hanswered hdown =>
        refine .down hanswered ?_
        simp only [Function.update_of_ne heq]
        exact hdown
  · intro c' string hc'
    by_cases heq : c' = c
    · subst heq
      simp only [Function.update_self] at hc'
      rcases hx with ⟨rfl, _⟩ | ⟨rfl, hanswered⟩
      · cases hc'
      · cases hc'
        exact ⟨rfl, hanswered⟩
    · simp only [Function.update_of_ne heq] at hc'
      exact h.printed c' string hc'
  · intro c'
    by_cases heq : c' = c
    · subst heq
      simp only [Function.update_self]
      rcases hx with ⟨rfl, _⟩ | ⟨rfl, _⟩
      · exact nofun
      · exact nofun
    · simp only [Function.update_of_ne heq]
      exact h.left c'

/-! ## The server -/

omit [DecidableEq C] in
theorem LiveInv.accept (h : LiveInv message s) {c : C} {rest : List C} (hs : s.server = .accepting)
    (hq : s.pending = c :: rest) :
    LiveInv message { s with server := .receiving c, pending := rest } := by
  have hwaits : ∀ c', c' ∈ s.pending ∨ s.server = .receiving c' →
      c' ∈ rest ∨ Server.receiving c = .receiving c' := by
    rintro c' (hmem | hserving)
    · rw [hq, List.mem_cons] at hmem
      rcases hmem with rfl | hmem
      · exact Or.inr rfl
      · exact Or.inl hmem
    · rw [hs] at hserving
      cases hserving
  have hopen : ∀ c', c' ∈ rest ∨ (Server.receiving c).serving = some c' → s.Open c' := by
    rintro c' (hmem | hserving)
    · exact Or.inl (hq ▸ List.mem_cons_of_mem c hmem)
    · cases hserving
      exact Or.inl (hq ▸ List.mem_cons_self)
  refine ⟨h.own.accept hq, rfl, h.length, h.closes, ?_, ?_, ?_, nofun, ?_, h.left⟩
  · intro c' hc'
    exact h.fresh c' (hc'.imp id (hopen c'))
  · intro c' hc'
    exact hwaits c' (h.connected c' hc')
  · intro c' hc'
    cases h.sent c' hc' with
    | up hbefore hup => exact .up (hwaits c' hbefore) hup
    | server n hreply =>
      rw [hs] at hreply
      cases hreply
    | down hanswered hdown => exact .down (fun hopen' => hanswered (hopen c' hopen')) hdown
  · intro c' string hc'
    obtain ⟨hstring, hanswered⟩ := h.printed c' string hc'
    exact ⟨hstring, fun hopen' => hanswered (hopen c' hopen')⟩

/-- The last byte of the buffer is out of the reach of `recv`. -/
theorem getLast?_recvInto {buffer data : Bytes} (hlength : buffer.length = bufSize)
    (hcloses : buffer.getLast? = some 0) (hfits : data.length ≤ bufSize - 1) :
    (Getfile.recvInto buffer data).length = bufSize ∧
      (Getfile.recvInto buffer data).getLast? = some 0 := by
  have hrest : 0 < (buffer.drop data.length).length := by
    rw [List.length_drop, hlength]
    unfold bufSize at hfits ⊢
    omega
  unfold Getfile.recvInto
  refine ⟨?_, ?_⟩
  · rw [List.length_append, List.length_drop]
    omega
  · rw [List.getLast?_append, List.getLast?_drop, if_neg (by rw [List.length_drop] at hrest; omega), hcloses]
    rfl

omit [DecidableEq C] in
/-- The message that the server can receive is there, as it was sent. -/
theorem LiveInv.arrived (h : LiveInv message s) {c : C} (hs : s.server = .receiving c)
    (hne : (s.link c).up ≠ []) : s.client c = .sent ∧ (s.link c).up = message c := by
  have hopen : s.Open c := by
    right
    rw [hs]
    rfl
  cases hc : s.client c with
  | start => exact absurd hc (h.own.started c hopen)
  | connected => exact absurd (h.own.unsent c (Or.inr hc)) hne
  | sent =>
    cases h.sent c hc with
    | up _ hup => exact ⟨rfl, hup⟩
    | server n hreply =>
      rw [hs] at hreply
      cases hreply
    | down hanswered => exact absurd hopen hanswered
  | printed string => exact absurd hopen (h.printed c string hc).2
  | exited => exact absurd hc (h.left c)

omit [DecidableEq C] in
/-- A string that is not empty is sent back. -/
theorem check_replies {c : C} {n : Nat} (hnul : s.buffer.getLast? = some 0)
    (hhead : s.buffer.head? ≠ some 0) : s.check c n = { s with server := .replying c n } := by
  rcases check_cases s c n with ⟨hnone, _⟩ | ⟨hempty, _⟩ | ⟨_, _, heq⟩
  · exact absurd (List.mem_of_getLast? hnul) hnone
  · exact absurd hempty hhead
  · exact heq

/-- The first byte of the buffer is that of the message. -/
theorem head?_recvInto {buffer stream : Bytes} {n : Nat} (hpos : 0 < n) (hne : stream ≠ []) :
    (Getfile.recvInto buffer (stream.take n)).head? = stream.head? := by
  obtain ⟨b, rest, rfl⟩ := List.exists_cons_of_ne_nil hne
  obtain ⟨m, rfl⟩ : ∃ m, n = m + 1 := ⟨n - 1, by omega⟩
  rfl

/-- The server has the echo in its buffer and goes on to send it. -/
theorem LiveInv.reply (h : LiveInv message s) {c : C} (hs : s.server = .receiving c)
    (hsent : s.client c = .sent) {buffer up : Bytes} {n : Nat} (hlength : buffer.length = bufSize)
    (hcloses : buffer.getLast? = some 0) (htaken : buffer.take n = echoed (message c))
    (hup : (s.link c).up = [] → up = []) :
    LiveInv message { s with
      server := .replying c n
      buffer := buffer
      link := Function.update s.link c { s.link c with up := up } } := by
  have hopen : s.Open c := by
    right
    rw [hs]
    rfl
  refine ⟨?_, rfl, hlength, hcloses, ?_, ?_, ?_, ?_, ?_, h.left⟩
  · refine h.own.received hs _ hup (Or.inr ⟨n, rfl, ?_⟩)
    rw [htaken]
  · intro c' hc'
    have hfresh : (s.link c').upClosed = false ∧ (s.link c').downClosed = false := by
      rcases hc' with hstart | hmem | hserving
      · exact h.fresh c' (Or.inl hstart)
      · exact h.fresh c' (Or.inr (Or.inl hmem))
      · cases hserving
        exact h.fresh c (Or.inr hopen)
    by_cases heq : c' = c
    · subst heq
      simp only [Function.update_self]
      exact hfresh
    · simp only [Function.update_of_ne heq]
      exact hfresh
  · intro c' hc'
    left
    rcases h.connected c' hc' with hmem | hserving
    · exact hmem
    · rw [hs] at hserving
      cases hserving
      rw [hsent] at hc'
      cases hc'
  · intro c' hc'
    by_cases heq : c' = c
    · subst heq
      exact .server n rfl
    · cases h.sent c' hc' with
      | up hwaits hup' =>
        refine .up (Or.inl (hwaits.resolve_right ?_)) ?_
        · intro hserving
          rw [hs] at hserving
          cases hserving
          exact heq rfl
        · simp only [Function.update_of_ne heq]
          exact hup'
      | server m hreply =>
        rw [hs] at hreply
        cases hreply
      | down hanswered hdown =>
        refine .down ?_ ?_
        · rintro (hmem | hserving)
          · exact hanswered (Or.inl hmem)
          · cases hserving
            exact heq rfl
        · simp only [Function.update_of_ne heq]
          exact hdown
  · intro c' m hreply
    cases hreply
    exact htaken
  · intro c' string hc'
    obtain ⟨hstring, hanswered⟩ := h.printed c' string hc'
    refine ⟨hstring, ?_⟩
    rintro (hmem | hserving)
    · exact hanswered (Or.inl hmem)
    · cases hserving
      exact hanswered hopen

/-- What the server receives is the echo, and it goes on to send it. -/
theorem LiveInv.received (h : LiveInv message s) (hmessage : ∀ c, 0 ∉ message c)
    {c : C} {n : Nat} (hs : s.server = .receiving c)
    (hn : Receives (bufSize - 1) (s.link c).up (s.link c).upClosed n)
    (hwhole : n = min (bufSize - 1) (s.link c).up.length) :
    LiveInv message (St.check { s with
      buffer := Getfile.recvInto s.buffer ((s.link c).up.take n)
      link := Function.update s.link c { s.link c with up := (s.link c).up.drop n } } c n) := by
  have hopen : s.Open c := by
    right
    rw [hs]
    rfl
  have hpos : 0 < n := by
    rcases hn with ⟨hpos, _⟩ | ⟨_, _, hclosed⟩
    · exact hpos
    · rw [(h.fresh c (Or.inr hopen)).1] at hclosed
      cases hclosed
  have hne : (s.link c).up ≠ [] := by
    intro hnil
    rw [hnil, List.length_nil, Nat.min_zero] at hwhole
    omega
  obtain ⟨hsent, hup⟩ := h.arrived hs hne
  have hle : n ≤ (s.link c).up.length := hwhole ▸ Nat.min_le_right _ _
  have hfits : n ≤ bufSize - 1 := hwhole ▸ Nat.min_le_left _ _
  have htaken : (Getfile.recvInto s.buffer ((s.link c).up.take n)).take n = echoed (message c) := by
    rw [take_recvInto hle, hwhole, hup]
    exact List.take_eq_take_min.symm
  have hdata : ((s.link c).up.take n).length ≤ bufSize - 1 :=
    (List.length_take_le n _).trans hfits
  obtain ⟨hlength, hcloses⟩ := getLast?_recvInto h.length h.closes hdata
  have hhead : (Getfile.recvInto s.buffer ((s.link c).up.take n)).head? ≠ some 0 := by
    rw [head?_recvInto hpos hne, hup]
    intro hzero
    exact hmessage c (List.mem_of_head? hzero)
  rw [check_replies hcloses hhead]
  exact h.reply hs hsent hlength hcloses htaken fun hnil => absurd hnil hne

theorem LiveInv.replied (h : LiveInv message s) {c : C} {n : Nat} (hs : s.server = .replying c n) :
    LiveInv message { s with
      server := .accepting
      buffer := List.replicate bufSize 0
      link := Function.update s.link c
        { s.link c with down := (s.link c).down ++ s.buffer.take n, downClosed := true } } := by
  have hserved : s.Open c := by
    right
    rw [hs]
    rfl
  have hmem : ∀ c', c' ∈ s.pending → c' ≠ c := by
    rintro c' hmem rfl
    exact h.own.once c' (by rw [hs]; rfl) hmem
  have hdown := h.own.unanswered c (Or.inr hserved)
  have hopen : ∀ c', c' ∈ s.pending ∨ Server.accepting.serving = some c' → c' ∈ s.pending := by
    rintro c' (hmem | hserving)
    · exact hmem
    · cases hserving
  refine ⟨h.own.replied hs (Nat.le_refl n), rfl, List.length_replicate, rfl, ?_, ?_, ?_, nofun, ?_,
    h.left⟩
  · intro c' hc'
    have hne : c' ≠ c := by
      rintro rfl
      rcases hc' with hstart | hopen'
      · exact h.own.started c' hserved hstart
      · exact hmem c' (hopen c' hopen') rfl
    simp only [Function.update_of_ne hne]
    exact h.fresh c' (hc'.imp id fun hopen' => Or.inl (hopen c' hopen'))
  · intro c' hc'
    rcases h.connected c' hc' with hin | hserving
    · exact Or.inl hin
    · rw [hs] at hserving
      cases hserving
  · intro c' hc'
    by_cases heq : c' = c
    · subst heq
      refine .down (fun hopen' => hmem c' (hopen c' hopen') rfl) ?_
      simp only [Function.update_self]
      rw [hdown, List.nil_append, h.replying c' n hs]
    · cases h.sent c' hc' with
      | up hwaits hup =>
        refine .up (hwaits.imp id ?_) ?_
        · intro hserving
          rw [hs] at hserving
          cases hserving
        · simp only [Function.update_of_ne heq]
          exact hup
      | server m hreply =>
        rw [hs] at hreply
        cases hreply
        exact absurd rfl heq
      | down hanswered hdown' =>
        refine .down (fun hopen' => hanswered (Or.inl (hopen c' hopen'))) ?_
        simp only [Function.update_of_ne heq]
        exact hdown'
  · intro c' string hc'
    obtain ⟨hstring, hanswered⟩ := h.printed c' string hc'
    exact ⟨hstring, fun hopen' => hanswered (Or.inl (hopen c' hopen'))⟩

/-! ## Runs -/

omit [DecidableEq C] in
/-- What a client receives has come back from the server. -/
theorem LiveInv.echo (h : LiveInv message s) {c : C} {n : Nat} (hc : s.client c = .sent)
    (hn : Receives (recvBufSize - 1) (s.link c).down (s.link c).downClosed n) :
    ¬ s.Open c ∧ (s.link c).down = echoed (message c) := by
  have hanswered : ¬ s.Open c := by
    intro hopen
    rw [h.own.unanswered c (Or.inr hopen), (h.fresh c (Or.inr hopen)).2] at hn
    rcases hn with ⟨hpos, _, hle⟩ | ⟨_, _, hclosed⟩
    · rw [List.length_nil] at hle
      omega
    · cases hclosed
  cases h.sent c hc with
  | up hwaits =>
    refine absurd (hwaits.imp id ?_) hanswered
    intro hserving
    rw [hserving]
    rfl
  | server m hreply =>
    refine absurd (Or.inr ?_) hanswered
    rw [hreply]
    rfl
  | down _ hdown => exact ⟨hanswered, hdown⟩

theorem live_step (hmessage : ∀ c, 0 ∉ message c) : ∀ (s : St C) a s', Whole message s a →
    (sys message).step s a = some s' → LiveInv message s → LiveInv message s' := by
  intro s a s' hok hstep h
  have hown := own_step s a s' trivial hstep h.own
  cases step_cases hstep with
  | connect c hc => exact h.connect hc
  | send c hc =>
    have hwaits := h.connected c hc
    have hopen : s.Open c := by
      refine hwaits.imp id ?_
      intro hserving
      rw [hserving]
      rfl
    refine h.client hown (Or.inl ⟨rfl, ?_, (h.fresh c (Or.inr hopen)).1, rfl, hwaits⟩)
    rw [h.own.unsent c (Or.inr hc), List.nil_append]
  | sendShort c n _ hlt =>
    have hn : n = (message c).length := hok
    omega
  | recv c n hc hn =>
    obtain ⟨hanswered, hdown⟩ := h.echo hc hn
    have hn : n = (s.link c).down.length := hok
    have hclean : 0 ∉ echoed (message c) := fun hmem => hmessage c (List.mem_of_mem_take hmem)
    have htext : text ((s.link c).down.take n) = echoed (message c) := by
      rw [hn, List.take_length, hdown, text_of_nul_free hclean]
    refine h.client hown (Or.inr ⟨?_, hanswered⟩)
    rw [htext]
  | clientFails a c ha =>
    rcases ha with rfl | rfl
    · cases hok
    · cases hok
  | accept c rest hs hq => exact h.accept hs hq
  | acceptFails => exact h
  | serverRecv c n hs hn => exact h.received hmessage hs hn (hok c hs)
  | serverRecvFails => cases hok
  | serverSend c numBytes n hs =>
    obtain rfl : n = numBytes := hok c numBytes hs
    exact h.replied hs

theorem goes_on {a : Act C} (hok : Whole message s a) (h : (sys message).step s a ≠ none) :
    ∃ a s', Whole message s a ∧ (sys message).step s a = some s' := by
  obtain ⟨s', hs'⟩ := Option.ne_none_iff_exists'.mp h
  exact ⟨a, s', hok, hs'⟩

/-- Nobody waits for the server, and a client is not through yet. -/
theorem LiveInv.accepting_goes (h : LiveInv message s) (hmessage : ∀ c, message c ≠ [])
    (hs : s.server = .accepting) (hq : s.pending = []) {c : C}
    (hc : s.client c ≠ .printed (echoed (message c))) :
    ∃ a s', Whole message s a ∧ (sys message).step s a = some s' := by
  have hwaits : ¬ (c ∈ s.pending ∨ s.server = .receiving c) := by
    rintro (hmem | hserving)
    · rw [hq] at hmem
      cases hmem
    · rw [hs] at hserving
      cases hserving
  cases hclient : s.client c with
  | start =>
    refine goes_on (a := .connect c) trivial ?_
    simp only [sys, step]
    rw [if_pos ⟨hclient, h.running⟩]
    exact Option.some_ne_none _
  | connected => exact absurd (h.connected c hclient) hwaits
  | sent =>
    cases h.sent c hclient with
    | up hup => exact absurd hup hwaits
    | server n hreply =>
      rw [hs] at hreply
      cases hreply
    | down _ hdown =>
      -- the echo is there
      have hne : 0 < (s.link c).down.length := by
        rw [hdown, List.length_pos_iff]
        unfold echoed bufSize
        rw [ne_eq, List.take_eq_nil_iff]
        exact not_or.mpr ⟨by decide, hmessage c⟩
      have hle : (s.link c).down.length ≤ recvBufSize - 1 := by
        rw [hdown]
        exact (List.length_take_le _ _).trans (by decide)
      refine goes_on (a := .recv c (s.link c).down.length) rfl ?_
      simp only [sys, step]
      rw [if_pos ⟨hclient, Or.inl ⟨hne, hle, Nat.le_refl _⟩⟩]
      exact Option.some_ne_none _
  | printed string =>
    rw [hclient, (h.printed c string hclient).1] at hc
    exact absurd rfl hc
  | exited => exact absurd hclient (h.left c)

/-- The server waits for a message that was sent. -/
theorem receiving_goes {c : C} (hs : s.server = .receiving c) (hup : (s.link c).up ≠ []) :
    ∃ a s', Whole message s a ∧ (sys message).step s a = some s' := by
  have hpos : 0 < (s.link c).up.length := List.length_pos_iff.mpr hup
  -- `recv` takes what the buffer has room for
  have hmin : 0 < min (bufSize - 1) (s.link c).up.length := Nat.lt_min.mpr ⟨by decide, hpos⟩
  have hn : Receives (bufSize - 1) (s.link c).up (s.link c).upClosed
      (min (bufSize - 1) (s.link c).up.length) :=
    Or.inl ⟨hmin, Nat.min_le_left _ _, Nat.min_le_right _ _⟩
  refine goes_on (a := .serverRecv (min (bufSize - 1) (s.link c).up.length)) ?_ ?_
  · intro c' hserving
    rw [hs] at hserving
    cases hserving
    rfl
  · simp only [sys, step, hs]
    rw [if_pos hn]
    exact Option.some_ne_none _

/-- The server waits for a message that is not sent yet. -/
theorem LiveInv.unsent_goes (h : LiveInv message s) (hmessage : ∀ c, message c ≠ []) {c : C}
    (hs : s.server = .receiving c) (hup : (s.link c).up = []) :
    ∃ a s', Whole message s a ∧ (sys message).step s a = some s' := by
  have hopen : s.Open c := by
    right
    rw [hs]
    rfl
  cases hclient : s.client c with
  | start => exact absurd hclient (h.own.started c hopen)
  | connected =>
    refine goes_on (a := .send c (message c).length) rfl ?_
    simp only [sys, step]
    rw [if_pos ⟨hclient, Nat.le_refl _⟩, if_neg (not_not_intro rfl)]
    exact Option.some_ne_none _
  | sent =>
    cases h.sent c hclient with
    | up _ hsent => exact absurd (hsent.symm.trans hup) (hmessage c)
    | server n hreply =>
      rw [hs] at hreply
      cases hreply
    | down hanswered => exact absurd hopen hanswered
  | printed string => exact absurd hopen (h.printed c string hclient).2
  | exited => exact absurd hclient (h.left c)

theorem replying_goes {c : C} {n : Nat} (hs : s.server = .replying c n) :
    ∃ a s', Whole message s a ∧ (sys message).step s a = some s' := by
  refine goes_on (a := .serverSend n) ?_ ?_
  · intro c' numBytes hreply
    rw [hs] at hreply
    cases hreply
    rfl
  · simp only [sys, step, hs]
    rw [if_pos (Nat.le_refl n)]
    exact Option.some_ne_none _

/-- Somebody can go on. -/
theorem live_progress (hmessage : ∀ c, message c ≠ []) (s : St C) (h : LiveInv message s)
    (hnot : ¬ Served message s) :
    ∃ a s', Whole message s a ∧ (sys message).step s a = some s' := by
  have hrunning := h.running
  cases hs : s.server with
  | accepting =>
    cases hq : s.pending with
    | cons c rest =>
      refine goes_on (a := .accept) trivial ?_
      simp only [sys, step, hs, hq]
      exact Option.some_ne_none _
    | nil =>
      -- nobody is in the queue, but not all are through
      obtain ⟨c, hc⟩ : ∃ c, s.client c ≠ .printed (echoed (message c)) := by
        by_contra hall
        exact hnot ⟨hs, hq, fun c => not_not.mp fun hc => hall ⟨c, hc⟩⟩
      exact h.accepting_goes hmessage hs hq hc
  | receiving c =>
    by_cases hup : (s.link c).up = []
    · exact h.unsent_goes hmessage hs hup
    · exact receiving_goes hs hup
  | replying c n => exact replying_goes hs
  | exited | undefined =>
    rw [hs] at hrunning
    cases hrunning

/-! ### The rank -/

/-- The steps that a client has still to take, with those of the server for it. -/
def Client.left : Client → Nat
  | .start => 6
  | .connected => 2
  | .sent => 1
  | .printed _ | .exited => 0

def Server.left : Server C → Nat
  | .receiving _ => 2
  | .replying _ _ => 1
  | .accepting | .exited | .undefined => 0

def rank [Fintype C] (s : St C) : Nat :=
  ∑ c, (s.client c).left + 3 * s.pending.length + s.server.left

theorem rank_client [Fintype C] {c : C} {x : Client} {l : C → Link}
    (hlt : x.left < (s.client c).left) :
    rank { s with client := Function.update s.client c x, link := l } < rank s := by
  have hsum := sum_update Client.left s.client c x
  unfold rank
  simp only []
  omega

theorem rank_step [Fintype C] {a : Act C} (hok : Whole message s a)
    (hstep : (sys message).step s a = some s') : rank s' < rank s := by
  cases step_cases hstep with
  | connect c hc =>
    have hsum := sum_update Client.left s.client c .connected
    rw [hc] at hsum
    simp only [Client.left] at hsum
    unfold rank
    rw [List.length_append, List.length_singleton]
    simp only [Client.left]
    omega
  | send c hc =>
    apply rank_client
    rw [hc]
    exact Nat.one_lt_two
  | sendShort c n hc =>
    apply rank_client
    rw [hc]
    exact Nat.zero_lt_two
  | recv c n hc =>
    apply rank_client
    rw [hc]
    exact Nat.zero_lt_one
  | clientFails a c ha =>
    rcases ha with rfl | rfl
    · cases hok
    · cases hok
  | accept c rest hs hq =>
    unfold rank
    rw [hs, hq, List.length_cons]
    simp only [Server.left]
    omega
  | acceptFails => cases hok
  | serverRecv c n hs =>
    have hcheck : ∀ t : St C, t.client = s.client → t.pending = s.pending →
        rank (t.check c n) < rank s := by
      intro t hclient hpending
      unfold rank
      rw [hs, ← hclient, ← hpending]
      rcases check_cases t c n with ⟨_, heq⟩ | ⟨_, heq⟩ | ⟨_, _, heq⟩
      · rw [heq]
        exact Nat.add_lt_add_left Nat.zero_lt_two _
      · rw [heq]
        exact Nat.add_lt_add_left Nat.zero_lt_two _
      · rw [heq]
        exact Nat.add_lt_add_left Nat.one_lt_two _
    exact hcheck _ rfl rfl
  | serverRecvFails => cases hok
  | serverSend c numBytes n hs =>
    unfold rank
    rw [hs]
    simp only [Server.left]
    omega

/-! ### An empty message -/

/-- The server waits for a client that has nothing to send, and this client for the server. -/
structure Blocked (c : C) (s : St C) : Prop where
  server : s.server = .receiving c
  client : s.client c = .connected ∨ s.client c = .sent
  link : s.link c = ⟨[], false, [], false⟩

omit [DecidableEq C] in
/-- This is where a client with an empty message is accepted. -/
theorem LiveInv.blocked (h : LiveInv message s) {c : C} (hempty : message c = [])
    (hs : s.server = .receiving c) : Blocked c s := by
  have hopen : s.Open c := by
    right
    rw [hs]
    rfl
  have hup : (s.link c).up = [] := by
    have hprefix := h.own.up c (Or.inr hs)
    rw [hempty] at hprefix
    exact List.prefix_nil.mp hprefix
  have hdown := h.own.unanswered c (Or.inr hopen)
  obtain ⟨hupClosed, hdownClosed⟩ := h.fresh c (Or.inr hopen)
  refine ⟨hs, ?_, ?_⟩
  · cases hclient : s.client c with
    | start => exact absurd hclient (h.own.started c hopen)
    | connected => exact Or.inl rfl
    | sent => exact Or.inr rfl
    | printed string => exact absurd hopen (h.printed c string hclient).2
    | exited => exact absurd hclient (h.left c)
  · cases hlink : s.link c
    rw [hlink] at hup hdown hupClosed hdownClosed
    simp only [] at hup hdown hupClosed hdownClosed
    rw [hup, hdown, hupClosed, hdownClosed]

omit [DecidableEq C] in
/-- Nothing comes on such a connection. -/
theorem Blocked.silent {c : C} (h : Blocked c s) {size n : Nat} :
    ¬ Receives size (s.link c).up (s.link c).upClosed n ∧
      ¬ Receives size (s.link c).down (s.link c).downClosed n := by
  have hnothing : ¬ Receives size [] false n := by
    rintro (⟨hpos, _, hle⟩ | ⟨_, _, hclosed⟩)
    · rw [List.length_nil] at hle
      omega
    · cases hclosed
  rw [h.link]
  exact ⟨hnothing, hnothing⟩

theorem Blocked.step {c : C} (hempty : message c = []) : ∀ (s : St C) a s', Whole message s a →
    (sys message).step s a = some s' → Blocked c s → Blocked c s' := by
  intro s a s' hok hstep h
  have hother : ∀ {c' : C} {x : Client} {l : Link}, c' ≠ c →
      Blocked c { s with
        client := Function.update s.client c' x
        link := Function.update s.link c' l } := by
    intro c' x l hne
    refine ⟨h.server, ?_, ?_⟩
    · simp only [Function.update_of_ne hne.symm]
      exact h.client
    · simp only [Function.update_of_ne hne.symm]
      exact h.link
  cases step_cases hstep with
  | connect c' hc =>
    have hne : c' ≠ c := by
      rintro rfl
      rcases h.client with hclient | hclient
      · rw [hclient] at hc
        cases hc
      · rw [hclient] at hc
        cases hc
    refine ⟨h.server, ?_, h.link⟩
    simp only [Function.update_of_ne hne.symm]
    exact h.client
  | send c' hc =>
    by_cases hne : c' = c
    · -- it sends nothing
      subst hne
      refine ⟨h.server, ?_, ?_⟩
      · exact Or.inr (Function.update_self _ _ _)
      · simp only [Function.update_self, hempty, List.append_nil]
        exact h.link
    · exact hother hne
  | sendShort c' n hc hlt =>
    have hn : n = (message c').length := hok
    omega
  | recv c' n hc hn =>
    refine hother ?_
    rintro rfl
    exact h.silent.2 hn
  | clientFails a c' ha =>
    rcases ha with rfl | rfl
    · cases hok
    · cases hok
  | accept c' rest hs =>
    rw [h.server] at hs
    cases hs
  | acceptFails => exact h
  | serverRecv c' n hs hn =>
    rw [h.server] at hs
    cases hs
    exact absurd hn h.silent.1
  | serverRecvFails => cases hok
  | serverSend c' numBytes n hs =>
    rw [h.server] at hs
    cases hs

/-- An empty message can block the server. -/
theorem not_inevitable {c : C} (hempty : message c = []) (hs : s.Start) :
    ¬ (sys message).Inevitable (Whole message) (Served message) s := by
  intro h
  rcases hs with ⟨hclient, hlink, hpending, hserver, _⟩
  have hnot : ∀ t : St C, t.client c ≠ .printed (echoed (message c)) → ¬ Served message t :=
    fun t hc hserved => hc (hserved.2.2 c)
  have hconnect : (sys message).step s (.connect c) = some { s with
      client := Function.update s.client c .connected
      pending := [c] } := by
    simp only [sys, step]
    rw [if_pos ⟨hclient c, by rw [hserver]; rfl⟩, hpending]
    rfl
  -- two steps lead into the trap
  have h₁ := h.next (a := Act.connect c) (hnot s (by simp [hclient])) trivial hconnect
  have haccept : (sys message).step { s with
      client := Function.update s.client c .connected
      pending := [c] } .accept = some { s with
      client := Function.update s.client c .connected
      pending := []
      server := .receiving c } := by
    simp only [sys, step, hserver]
  have h₂ := h₁.next (a := Act.accept) (hnot _ (by simp))
    trivial haccept
  -- and none leads out
  refine Sys.Inevitable.not_of_trap ?_ (Blocked.step hempty) ?_ h₂
  · intro t hblocked hserved
    have hserver := hblocked.server
    rw [hserved.1] at hserver
    cases hserver
  · refine ⟨rfl, Or.inl ?_, hlink c⟩
    simp only [Function.update_self]

/-- **Everybody gets an echo.** For any number of clients with strings for messages, in runs where
every `send` and `recv` has all there is and no call fails: every schedule ends with the server
back at its `accept` and each client with its message, or with 15 bytes of a longer one, exactly if
no message is empty. And once a client with an empty message is accepted, the server waits for it and
it for the server, whatever else happens. -/
theorem echo_settles_iff [Fintype C] (message : C → Bytes) (hmessage : ∀ c, 0 ∉ message c) (s : St C)
    (hs : s.Start) (hnul : s.buffer.getLast? = some 0) :
    ((sys message).Inevitable (Whole message) (Served message) s ↔ ∀ c, message c ≠ []) ∧
      ∀ acts t c, (sys message).RunOk (Whole message) s acts → (sys message).run s acts = some t →
        t.server = .receiving c → message c = [] →
          ∀ acts' t', (sys message).RunOk (Whole message) t acts' →
            (sys message).run t acts' = some t' → Blocked c t' := by
  have hlive := live_init message hs hnul
  refine ⟨⟨?_, ?_⟩, ?_⟩
  · intro h c hempty
    exact not_inevitable hempty hs h
  · intro hne
    refine Sys.Inevitable.of_rank rank (live_progress hne) ?_ s hlive
    intro s a s' h _ hok hstep
    exact ⟨live_step hmessage s a s' hok hstep h, rank_step hok hstep⟩
  · intro acts t c hok hrun hserver hempty acts' t' hok' hrun'
    have hreached := Sys.runOk_inv (live_step hmessage) hlive hok hrun
    exact Sys.runOk_inv (Blocked.step hempty) (hreached.blocked hempty hserver) hok' hrun'

/-- Two clients get their messages. Of three, the one that sends nothing blocks the server. -/
theorem echo_settles_iff_two :
    (sys twoMessages).Inevitable (Whole twoMessages) (Served twoMessages) St.start ∧
      ∃ t : St (Fin 3), Blocked 0 t ∧ t.pending = [1] := by
  refine ⟨(echo_settles_iff twoMessages (by decide) _ start_start rfl).1.mpr (by decide), ?_⟩
  have hrun : (((sys fun c : Fin 3 => if c = 0 then [] else ascii "first").run St.start
      [.connect 0, .accept]).map fun t => (t.server, ((sys fun c : Fin 3 =>
        if c = 0 then [] else ascii "first").run t [.send 0 0, .connect 1]).map St.pending)) =
      some (.receiving 0, some [1]) := by decide
  rcases Option.map_eq_some_iff.mp hrun with ⟨t, ht, hout⟩
  rw [Prod.mk.injEq] at hout
  rcases Option.map_eq_some_iff.mp hout.2 with ⟨t', ht', hpending⟩
  refine ⟨t', ?_, hpending⟩
  refine (echo_settles_iff (fun c : Fin 3 => if c = 0 then [] else ascii "first") (by decide) _
    start_start rfl).2 _ t 0 ?_ ht hout.1 rfl _ t' ?_ ht'
  · exact ⟨trivial, fun _ _ => ⟨trivial, fun _ _ => trivial⟩⟩
  · exact ⟨rfl, fun _ _ => ⟨trivial, fun _ _ => trivial⟩⟩

end IntroOS.Echo
