import IntroOS.Base.Sys
import IntroOS.Base.Threads
import IntroOS.Getfile.Server

/-! # `echoserver.c` and `echoclient.c`

A server that has one connection at a time, and any number of clients. A client sends its message
and prints what it receives; the server sends back what one `recv` brought, and goes on to the next
connection.

* `step`: the calls of both programs, over the streams of the connections;
* `StepCase`: what a step can do;
* `echo_own`: in any interleaving, and whatever fails, a client prints the beginning of its own
  message.

The clients are there from the beginning, each at its `connect`. A connection waits in the queue of
the server until it is accepted; when the server ends, its connections end too.
-/

namespace IntroOS.Echo

/-! ## The state -/

/-- `BUFSIZE` of the server. -/
def bufSize : Nat := 16

/-- `BUFSIZE` of the client. -/
def recvBufSize : Nat := 256

inductive Client where
  | start
  | connected
  /-- the message was sent -/
  | sent
  /-- the client has printed this and returned 0 -/
  | printed (string : Bytes)
  /-- `exit(1)` -/
  | exited
deriving DecidableEq, Repr

/-- The two streams of a connection: what was sent and not received yet, and whether the sender has
closed its side. -/
structure Link where
  up : Bytes
  upClosed : Bool
  down : Bytes
  downClosed : Bool
deriving DecidableEq, Repr

inductive Server (C : Type*) where
  | accepting
  | receiving (c : C)
  | replying (c : C) (numBytes : Nat)
  /-- `exit(1)` -/
  | exited
  /-- `printf` reads beyond the buffer -/
  | undefined
deriving DecidableEq, Repr

/-- The client whose connection the server has. -/
def Server.serving {C : Type*} : Server C → Option C
  | .receiving c | .replying c _ => some c
  | .accepting | .exited | .undefined => none

def Server.running {C : Type*} : Server C → Bool
  | .accepting | .receiving _ | .replying _ _ => true
  | .exited | .undefined => false

structure St (C : Type*) where
  client : C → Client
  link : C → Link
  /-- the connections that are not accepted yet -/
  pending : List C
  server : Server C
  buffer : Bytes

/-- Nothing is set in the buffer of the server. -/
def St.Start {C : Type*} (s : St C) : Prop :=
  (∀ c, s.client c = .start) ∧ (∀ c, s.link c = ⟨[], false, [], false⟩) ∧ s.pending = [] ∧
    s.server = .accepting ∧ s.buffer.length = bufSize

/-- A buffer that is all zero is one such. -/
def St.start {C : Type*} : St C :=
  ⟨fun _ => .start, fun _ => ⟨[], false, [], false⟩, [], .accepting, List.replicate bufSize 0⟩

inductive Act (C : Type*) where
  | connect (c : C)
  /-- `send` takes `n` bytes of the message -/
  | send (c : C) (n : Nat)
  | sendFails (c : C)
  | recv (c : C) (n : Nat)
  | recvFails (c : C)
  | accept
  | acceptFails
  | serverRecv (n : Nat)
  | serverRecvFails
  /-- `send` takes `n` bytes of the buffer, or none when it fails, and what follows -/
  | serverSend (n : Nat)
deriving DecidableEq, Repr

/-! ## The programs -/

/-- What `recv` can return on a stream, into a buffer of `size` bytes: at least a byte, or 0 at the
end. -/
def Receives (size : Nat) (stream : Bytes) (closed : Bool) (n : Nat) : Prop :=
  (0 < n ∧ n ≤ size ∧ n ≤ stream.length) ∨ (n = 0 ∧ stream = [] ∧ closed = true)

instance (size : Nat) (stream : Bytes) (closed : Bool) (n : Nat) :
    Decidable (Receives size stream closed n) :=
  inferInstanceAs (Decidable ((0 < n ∧ n ≤ size ∧ n ≤ stream.length) ∨ _))

variable {C : Type*} [DecidableEq C]

/-- A client that returns or exits closes its connection. -/
def St.leave (s : St C) (c : C) (x : Client) : St C :=
  { s with
    client := Function.update s.client c x
    link := Function.update s.link c { s.link c with upClosed := true } }

/-- The server ends, and its connections with it. -/
def St.stop (s : St C) (server : Server C) : St C :=
  { s with
    server := server
    link := fun c => { s.link c with downClosed := true } }

/-- What the server does with the buffer after `recv`: it prints the buffer as a string, and exits if
the string is empty. -/
def St.check (s : St C) (c : C) (n : Nat) : St C :=
  match cString s.buffer with
  | none => s.stop .undefined
  | some string => if string = [] then s.stop .exited else { s with server := .replying c n }

/-- One call of either program with what follows it. `message c` is the argument of client `c`. -/
def step (message : C → Bytes) (s : St C) : Act C → Option (St C)
  | .connect c =>
    if s.client c = .start ∧ s.server.running then
      some { s with
        client := Function.update s.client c .connected
        pending := s.pending ++ [c] }
    else none
  | .send c n =>
    if s.client c = .connected ∧ n ≤ (message c).length then
      let s := { s with
        link := Function.update s.link c
          { s.link c with up := (s.link c).up ++ (message c).take n } }
      -- "Full message not sent!"
      if n ≠ (message c).length then some (s.leave c .exited)
      else some { s with client := Function.update s.client c .sent }
    else none
  | .sendFails c => if s.client c = .connected then some (s.leave c .exited) else none
  | .recv c n =>
    let l := s.link c
    if s.client c = .sent ∧ Receives (recvBufSize - 1) l.down l.downClosed n then
      -- `recvbuf[numbytes]` is 0, and `%s` stops at the first one
      some (s.leave c (.printed (text (l.down.take n))))
    else none
  | .recvFails c => if s.client c = .sent then some (s.leave c .exited) else none
  | .accept =>
    match s.server, s.pending with
    | .accepting, c :: rest => some { s with server := .receiving c, pending := rest }
    | _, _ => none
  -- `continue`
  | .acceptFails => if s.server = .accepting then some s else none
  | .serverRecv n =>
    match s.server with
    | .receiving c =>
      let l := s.link c
      if Receives (bufSize - 1) l.up l.upClosed n then
        let s := { s with
          buffer := Getfile.recvInto s.buffer (l.up.take n)
          link := Function.update s.link c { l with up := l.up.drop n } }
        some (s.check c n)
      else none
    | _ => none
  | .serverRecvFails =>
    match s.server with
    | .receiving _ => some (s.stop .exited)
    | _ => none
  | .serverSend n =>
    match s.server with
    | .replying c numBytes =>
      if n ≤ numBytes then
        -- the result of `send` is not looked at: `close`, and `memset` for the next client
        let l := s.link c
        some { s with
          server := .accepting
          buffer := List.replicate bufSize 0
          link := Function.update s.link c
            { l with down := l.down ++ s.buffer.take n, downClosed := true } }
      else none
    | _ => none

/-- Any number of clients, each with its message. -/
def sys (message : C → Bytes) : Sys (St C) (Act C) where
  Init s := s.Start
  step := step message

omit [DecidableEq C] in
theorem start_start : (St.start : St C).Start :=
  ⟨fun _ => rfl, fun _ => rfl, rfl, rfl, List.length_replicate⟩

/-! ## What a step can do -/

variable {message : C → Bytes} {s s' : St C}

inductive StepCase (message : C → Bytes) (s : St C) : Act C → St C → Prop where
  | connect (c : C) (hc : s.client c = .start) (hrunning : s.server.running = true) :
    StepCase message s (.connect c) { s with
      client := Function.update s.client c .connected
      pending := s.pending ++ [c] }
  | send (c : C) (hc : s.client c = .connected) :
    StepCase message s (.send c (message c).length) { s with
      client := Function.update s.client c .sent
      link := Function.update s.link c { s.link c with up := (s.link c).up ++ message c } }
  | sendShort (c : C) (n : Nat) (hc : s.client c = .connected) (hlt : n < (message c).length) :
    StepCase message s (.send c n) { s with
      client := Function.update s.client c .exited
      link := Function.update s.link c
        { s.link c with up := (s.link c).up ++ (message c).take n, upClosed := true } }
  | recv (c : C) (n : Nat) (hc : s.client c = .sent)
      (hn : Receives (recvBufSize - 1) (s.link c).down (s.link c).downClosed n) :
    StepCase message s (.recv c n) (s.leave c (.printed (text ((s.link c).down.take n))))
  | clientFails (a : Act C) (c : C) (ha : a = .sendFails c ∨ a = .recvFails c)
      (hc : s.client c ≠ .start) : StepCase message s a (s.leave c .exited)
  | accept (c : C) (rest : List C) (hs : s.server = .accepting) (hq : s.pending = c :: rest) :
    StepCase message s .accept { s with server := .receiving c, pending := rest }
  | acceptFails : StepCase message s .acceptFails s
  | serverRecv (c : C) (n : Nat) (hs : s.server = .receiving c)
      (hn : Receives (bufSize - 1) (s.link c).up (s.link c).upClosed n) :
    StepCase message s (.serverRecv n) (St.check { s with
      buffer := Getfile.recvInto s.buffer ((s.link c).up.take n)
      link := Function.update s.link c { s.link c with up := (s.link c).up.drop n } } c n)
  | serverRecvFails (c : C) (hs : s.server = .receiving c) :
    StepCase message s .serverRecvFails (s.stop .exited)
  | serverSend (c : C) (numBytes n : Nat) (hs : s.server = .replying c numBytes)
      (hn : n ≤ numBytes) :
    StepCase message s (.serverSend n) { s with
      server := .accepting
      buffer := List.replicate bufSize 0
      link := Function.update s.link c
        { s.link c with down := (s.link c).down ++ s.buffer.take n, downClosed := true } }

theorem step_cases {a : Act C} (h : (sys message).step s a = some s') : StepCase message s a s' := by
  have h : step message s a = some s' := h
  cases a with
  | connect c =>
    simp only [step] at h
    split at h
    · rename_i hc
      cases h
      exact .connect c hc.1 hc.2
    · cases h
  | send c n =>
    simp only [step] at h
    split at h
    · rename_i hc
      split at h
      · rename_i hne
        cases h
        have hcase : StepCase message s (.send c n) _ := .sendShort c n hc.1 (by omega)
        unfold St.leave
        simpa only [Function.update_self, Function.update_idem] using hcase
      · rename_i heq
        cases h
        obtain rfl : n = (message c).length := not_not.mp heq
        rw [List.take_length]
        exact .send c hc.1
    · cases h
  | sendFails c =>
    simp only [step] at h
    split at h
    · rename_i hc
      cases h
      exact .clientFails _ c (Or.inl rfl) (by rw [hc]; exact nofun)
    · cases h
  | recv c n =>
    simp only [step] at h
    split at h
    · rename_i hc
      cases h
      exact .recv c n hc.1 hc.2
    · cases h
  | recvFails c =>
    simp only [step] at h
    split at h
    · rename_i hc
      cases h
      exact .clientFails _ c (Or.inr rfl) (by rw [hc]; exact nofun)
    · cases h
  | accept =>
    simp only [step] at h
    split at h
    · rename_i c rest hs hq
      cases h
      exact .accept c rest hs hq
    · cases h
  | acceptFails =>
    simp only [step] at h
    split at h
    · cases h
      exact .acceptFails
    · cases h
  | serverRecv n =>
    simp only [step] at h
    split at h
    · rename_i c hs
      split at h
      · rename_i hn
        cases h
        exact .serverRecv c n hs hn
      · cases h
    · cases h
  | serverRecvFails =>
    simp only [step] at h
    split at h
    · rename_i c hs
      cases h
      exact .serverRecvFails c hs
    · cases h
  | serverSend n =>
    simp only [step] at h
    split at h
    · rename_i c numBytes hs
      split at h
      · rename_i hn
        cases h
        exact .serverSend c numBytes n hs hn
      · cases h
    · cases h

omit [DecidableEq C] in
/-- What the server makes of the buffer. -/
theorem check_cases (s : St C) (c : C) (n : Nat) :
    (0 ∉ s.buffer ∧ s.check c n = s.stop .undefined) ∨
      (s.buffer.head? = some 0 ∧ s.check c n = s.stop .exited) ∨
      (0 ∈ s.buffer ∧ s.buffer.head? ≠ some 0 ∧ s.check c n = { s with server := .replying c n }) := by
  unfold St.check cString
  by_cases hnul : 0 ∈ s.buffer
  · rw [if_pos hnul]
    dsimp only
    cases hbuffer : s.buffer with
    | nil =>
      rw [hbuffer] at hnul
      cases hnul
    | cons b rest =>
      by_cases hb : b = 0
      · rw [hb, text_nul, if_pos rfl]
        exact Or.inr (Or.inl ⟨rfl, rfl⟩)
      · have hne : text (b :: rest) ≠ [] := by
          intro htext
          have hsplit := text_split (hbuffer ▸ hnul)
          rw [htext] at hsplit
          rcases hsplit with ⟨tail, heq⟩
          exact hb (List.cons.inj heq).1
        rw [if_neg hne]
        refine Or.inr (Or.inr ⟨hbuffer ▸ hnul, ?_, rfl⟩)
        rintro ⟨⟩
        exact hb rfl
  · rw [if_neg hnul]
    exact Or.inl ⟨hnul, rfl⟩

/-! ## Whose bytes -/

/-- The connection waits, or the server has it. -/
def St.Open (s : St C) (c : C) : Prop := c ∈ s.pending ∨ s.server.serving = some c

/-- What a client is told. -/
def echoed (message : Bytes) : Bytes := message.take (bufSize - 1)

/-- Every stream has bytes of its own client, and no connection is served twice. -/
structure Own (message : C → Bytes) (s : St C) : Prop where
  nodup : s.pending.Nodup
  once : ∀ c, s.server.serving = some c → c ∉ s.pending
  started : ∀ c, s.Open c → s.client c ≠ .start
  unsent : ∀ c, s.client c = .start ∨ s.client c = .connected → (s.link c).up = []
  up : ∀ c, c ∈ s.pending ∨ s.server = .receiving c → (s.link c).up <+: message c
  unanswered : ∀ c, s.client c = .start ∨ s.Open c → (s.link c).down = []
  reply : ∀ c n, s.server = .replying c n → s.buffer.take n <+: echoed (message c)
  down : ∀ c, (s.link c).down <+: echoed (message c)
  printed : ∀ c string, s.client c = .printed string → string <+: echoed (message c)

omit [DecidableEq C] in
theorem own_init (message : C → Bytes) (hs : s.Start) : Own message s := by
  rcases hs with ⟨hclient, hlink, hpending, hserver, _⟩
  refine ⟨?_, ?_, ?_, ?_, ?_, ?_, ?_, ?_, ?_⟩
  · rw [hpending]
    exact List.nodup_nil
  · intro c _
    rw [hpending]
    exact List.not_mem_nil
  · rintro c (hmem | hserving)
    · rw [hpending] at hmem
      cases hmem
    · rw [hserver] at hserving
      cases hserving
  · intro c _
    rw [hlink]
  · intro c _
    rw [hlink]
    exact List.nil_prefix
  · intro c _
    rw [hlink]
  · intro c n hreply
    rw [hserver] at hreply
    cases hreply
  · intro c
    rw [hlink]
    exact List.nil_prefix
  · intro c string hprinted
    rw [hclient] at hprinted
    cases hprinted

/-- A client that has connected goes on, and changes only what it sends. -/
theorem Own.client (h : Own message s) {c : C} {x : Client} {l : Link} (hc : s.client c ≠ .start)
    (hx : x ≠ .start ∧ x ≠ .connected) (hdown : l.down = (s.link c).down)
    (hup : (s.link c).up <+: message c → l.up <+: message c)
    (hprinted : ∀ string, x = .printed string → string <+: echoed (message c)) :
    Own message { s with
      client := Function.update s.client c x
      link := Function.update s.link c l } := by
  refine ⟨h.nodup, h.once, ?_, ?_, ?_, ?_, h.reply, ?_, ?_⟩
  · intro c' hopen
    by_cases heq : c' = c
    · subst heq
      simp only [Function.update_self]
      exact hx.1
    · simp only [Function.update_of_ne heq]
      exact h.started c' hopen
  · intro c' hstart
    by_cases heq : c' = c
    · subst heq
      simp only [Function.update_self] at hstart
      exact absurd hstart (not_or.mpr hx)
    · simp only [Function.update_of_ne heq] at hstart ⊢
      exact h.unsent c' hstart
  · intro c' hopen
    by_cases heq : c' = c
    · subst heq
      simp only [Function.update_self]
      exact hup (h.up c' hopen)
    · simp only [Function.update_of_ne heq]
      exact h.up c' hopen
  · intro c' hopen
    by_cases heq : c' = c
    · subst heq
      simp only [Function.update_self] at hopen ⊢
      rw [hdown]
      rcases hopen with hstart | hopen
      · exact absurd hstart hx.1
      · exact h.unanswered c' (Or.inr hopen)
    · simp only [Function.update_of_ne heq] at hopen ⊢
      exact h.unanswered c' hopen
  · intro c'
    by_cases heq : c' = c
    · subst heq
      simp only [Function.update_self]
      rw [hdown]
      exact h.down c'
    · simp only [Function.update_of_ne heq]
      exact h.down c'
  · intro c' string hc'
    by_cases heq : c' = c
    · subst heq
      simp only [Function.update_self] at hc'
      exact hprinted string hc'
    · simp only [Function.update_of_ne heq] at hc'
      exact h.printed c' string hc'

omit [DecidableEq C] in
/-- The server ends. -/
theorem Own.stop (h : Own message s) {server : Server C} (hserving : server.serving = none) :
    Own message (s.stop server) := by
  have hnot : ∀ c, server.serving ≠ some c := by
    intro c
    rw [hserving]
    exact nofun
  refine ⟨h.nodup, ?_, ?_, h.unsent, ?_, ?_, ?_, h.down, h.printed⟩
  · intro c hc
    exact absurd hc (hnot c)
  · rintro c (hmem | hc)
    · exact h.started c (Or.inl hmem)
    · exact absurd hc (hnot c)
  · rintro c (hmem | hc)
    · exact h.up c (Or.inl hmem)
    · have hc : server = .receiving c := hc
      rw [hc] at hserving
      cases hserving
  · rintro c (hstart | hmem | hc)
    · exact h.unanswered c (Or.inl hstart)
    · exact h.unanswered c (Or.inr (Or.inl hmem))
    · exact absurd hc (hnot c)
  · intro c n hc
    have hc : server = .replying c n := hc
    rw [hc] at hserving
    cases hserving

theorem Own.connect (h : Own message s) {c : C} (hc : s.client c = .start) :
    Own message { s with
      client := Function.update s.client c .connected
      pending := s.pending ++ [c] } := by
  have hfresh : ¬ s.Open c := fun hopen => h.started c hopen hc
  have hopen : ∀ c', c' ∈ s.pending ++ [c] ∨ s.server.serving = some c' → c' ≠ c → s.Open c' := by
    rintro c' (hmem | hserving) hne
    · rcases List.mem_append.mp hmem with hmem | hmem
      · exact Or.inl hmem
      · exact absurd (List.mem_singleton.mp hmem) hne
    · exact Or.inr hserving
  refine ⟨?_, ?_, ?_, ?_, ?_, ?_, h.reply, h.down, ?_⟩
  · refine List.Nodup.append h.nodup (List.nodup_singleton c) ?_
    rw [List.disjoint_singleton]
    exact fun hmem => hfresh (Or.inl hmem)
  · intro c' hserving hmem
    rcases List.mem_append.mp hmem with hmem | hmem
    · exact h.once c' hserving hmem
    · rw [List.mem_singleton.mp hmem] at hserving
      exact hfresh (Or.inr hserving)
  · intro c' hopen'
    by_cases heq : c' = c
    · subst heq
      simp only [Function.update_self]
      exact nofun
    · simp only [Function.update_of_ne heq]
      exact h.started c' (hopen c' hopen' heq)
  · intro c' hstart
    by_cases heq : c' = c
    · exact heq ▸ h.unsent c (Or.inl hc)
    · simp only [Function.update_of_ne heq] at hstart
      exact h.unsent c' hstart
  · intro c' hwaits
    by_cases heq : c' = c
    · rw [heq, h.unsent c (Or.inl hc)]
      exact List.nil_prefix
    · rcases hwaits with hmem | hserving
      · rcases List.mem_append.mp hmem with hmem | hmem
        · exact h.up c' (Or.inl hmem)
        · exact absurd (List.mem_singleton.mp hmem) heq
      · exact h.up c' (Or.inr hserving)
  · intro c' hwaits
    by_cases heq : c' = c
    · exact heq ▸ h.unanswered c (Or.inl hc)
    · simp only [Function.update_of_ne heq] at hwaits
      exact h.unanswered c' (hwaits.imp id fun hopen' => hopen c' hopen' heq)
  · intro c' string hprinted
    by_cases heq : c' = c
    · subst heq
      simp only [Function.update_self] at hprinted
      cases hprinted
    · simp only [Function.update_of_ne heq] at hprinted
      exact h.printed c' string hprinted

omit [DecidableEq C] in
theorem Own.accept (h : Own message s) {c : C} {rest : List C} (hq : s.pending = c :: rest) :
    Own message { s with server := .receiving c, pending := rest } := by
  have hnodup := h.nodup
  rw [hq, List.nodup_cons] at hnodup
  have hopen : ∀ c', c' ∈ rest ∨ (Server.receiving c).serving = some c' → c' ∈ s.pending := by
    rintro c' (hmem | hserving)
    · rw [hq]
      exact List.mem_cons_of_mem c hmem
    · cases hserving
      rw [hq]
      exact List.mem_cons_self
  refine ⟨hnodup.2, ?_, ?_, h.unsent, ?_, ?_, ?_, h.down, h.printed⟩
  · intro c' hserving
    cases hserving
    exact hnodup.1
  · intro c' hopen'
    exact h.started c' (Or.inl (hopen c' hopen'))
  · rintro c' (hmem | hserving)
    · exact h.up c' (Or.inl (hopen c' (Or.inl hmem)))
    · cases hserving
      exact h.up c (Or.inl (hopen c (Or.inr rfl)))
  · intro c' hwaits
    exact h.unanswered c' (hwaits.imp id fun hopen' => Or.inl (hopen c' hopen'))
  · intro c' n hreply
    cases hreply

/-- The server has received, and ends or replies. -/
theorem Own.received (h : Own message s) {c : C} (hs : s.server = .receiving c) {up buffer : Bytes}
    (server : Server C) (hup : (s.link c).up = [] → up = [])
    (hserver : server.serving = none ∨
      ∃ n, server = .replying c n ∧ buffer.take n <+: echoed (message c)) :
    Own message { s with
      server := server
      buffer := buffer
      link := Function.update s.link c { s.link c with up := up } } := by
  have hserved : s.server.serving = some c := by
    rw [hs]
    rfl
  have honly : ∀ c', server.serving = some c' → c' = c := by
    intro c' hserving
    rcases hserver with hnone | ⟨n, rfl, _⟩
    · rw [hnone] at hserving
      cases hserving
    · exact (Option.some.inj hserving).symm
  have hopen : ∀ c', c' ∈ s.pending ∨ server.serving = some c' → s.Open c' := by
    rintro c' (hmem | hserving)
    · exact Or.inl hmem
    · rw [honly c' hserving]
      exact Or.inr hserved
  refine ⟨h.nodup, ?_, ?_, ?_, ?_, ?_, ?_, ?_, h.printed⟩
  · intro c' hserving
    rw [honly c' hserving]
    exact h.once c hserved
  · intro c' hopen'
    exact h.started c' (hopen c' hopen')
  · intro c' hstart
    by_cases heq : c' = c
    · subst heq
      simp only [Function.update_self]
      exact hup (h.unsent c' hstart)
    · simp only [Function.update_of_ne heq]
      exact h.unsent c' hstart
  · rintro c' (hmem | hserving)
    · have hne : c' ≠ c := fun heq => h.once c hserved (heq ▸ hmem)
      simp only [Function.update_of_ne hne]
      exact h.up c' (Or.inl hmem)
    · -- the server does not receive again
      have hserving : server = .receiving c' := hserving
      rcases hserver with hnone | ⟨n, heq, _⟩
      · rw [hserving] at hnone
        cases hnone
      · rw [hserving] at heq
        cases heq
  · intro c' hwaits
    have hdown := h.unanswered c' (hwaits.imp id fun hopen' => hopen c' hopen')
    by_cases heq : c' = c
    · subst heq
      simp only [Function.update_self]
      exact hdown
    · simp only [Function.update_of_ne heq]
      exact hdown
  · intro c' n hreply
    have hreply : server = .replying c' n := hreply
    rcases hserver with hnone | ⟨m, heq, hprefix⟩
    · rw [hreply] at hnone
      cases hnone
    · rw [hreply] at heq
      cases heq
      exact hprefix
  · intro c'
    by_cases heq : c' = c
    · subst heq
      simp only [Function.update_self]
      exact h.down c'
    · simp only [Function.update_of_ne heq]
      exact h.down c'

theorem Own.replied (h : Own message s) {c : C} {numBytes n : Nat}
    (hs : s.server = .replying c numBytes) (hn : n ≤ numBytes) :
    Own message { s with
      server := .accepting
      buffer := List.replicate bufSize 0
      link := Function.update s.link c
        { s.link c with down := (s.link c).down ++ s.buffer.take n, downClosed := true } } := by
  have hserved : s.server.serving = some c := by
    rw [hs]
    rfl
  have hempty := h.unanswered c (Or.inr (Or.inr hserved))
  refine ⟨h.nodup, nofun, ?_, ?_, ?_, ?_, nofun, ?_, h.printed⟩
  · rintro c' (hmem | hserving)
    · exact h.started c' (Or.inl hmem)
    · cases hserving
  · intro c' hstart
    by_cases heq : c' = c
    · subst heq
      simp only [Function.update_self]
      exact h.unsent c' hstart
    · simp only [Function.update_of_ne heq]
      exact h.unsent c' hstart
  · rintro c' (hmem | hserving)
    · have hne : c' ≠ c := fun heq => h.once c hserved (heq ▸ hmem)
      simp only [Function.update_of_ne hne]
      exact h.up c' (Or.inl hmem)
    · cases hserving
  · intro c' hwaits
    have hne : c' ≠ c := by
      rintro rfl
      rcases hwaits with hstart | hmem | hserving
      · exact h.started c' (Or.inr hserved) hstart
      · exact h.once c' hserved hmem
      · cases hserving
    simp only [Function.update_of_ne hne]
    rcases hwaits with hstart | hmem | hserving
    · exact h.unanswered c' (Or.inl hstart)
    · exact h.unanswered c' (Or.inr (Or.inl hmem))
    · cases hserving
  · intro c'
    by_cases heq : c' = c
    · subst heq
      simp only [Function.update_self]
      rw [hempty, List.nil_append]
      exact (List.take_prefix_take_left hn).trans (h.reply c' numBytes hs)
    · simp only [Function.update_of_ne heq]
      exact h.down c'

/-- What `recv` put into the buffer. -/
theorem take_recvInto {buffer stream : Bytes} {n : Nat} (hn : n ≤ stream.length) :
    (Getfile.recvInto buffer (stream.take n)).take n = stream.take n := by
  unfold Getfile.recvInto
  rw [List.take_append_of_le_length (by rw [List.length_take]; omega)]
  exact List.take_of_length_le (List.length_take_le n stream)

theorem taken_echoed {buffer stream message : Bytes} {closed : Bool} {n : Nat}
    (hbegins : stream <+: message) (hn : Receives (bufSize - 1) stream closed n) :
    (Getfile.recvInto buffer (stream.take n)).take n <+: echoed message := by
  have hle : n ≤ stream.length ∧ n ≤ bufSize - 1 := by
    rcases hn with ⟨_, hsize, hlen⟩ | ⟨rfl, _⟩
    · exact ⟨hlen, hsize⟩
    · exact ⟨Nat.zero_le _, Nat.zero_le _⟩
  rw [take_recvInto hle.1]
  refine List.prefix_take_iff.mpr ⟨(List.take_prefix n stream).trans hbegins, ?_⟩
  exact (List.length_take_le n stream).trans hle.2

theorem own_step : ∀ (s : St C) a s', True → (sys message).step s a = some s' →
    Own message s → Own message s' := by
  intro s a s' _ hstep h
  cases step_cases hstep with
  | connect c hc => exact h.connect hc
  | send c hc =>
    have hup := h.unsent c (Or.inr hc)
    refine h.client (by rw [hc]; exact nofun) ⟨nofun, nofun⟩ rfl ?_ nofun
    intro _
    rw [hup, List.nil_append]
  | sendShort c n hc =>
    have hup := h.unsent c (Or.inr hc)
    refine h.client (by rw [hc]; exact nofun) ⟨nofun, nofun⟩ rfl ?_ nofun
    intro _
    rw [hup, List.nil_append]
    exact List.take_prefix _ _
  | recv c n hc =>
    refine h.client (by rw [hc]; exact nofun) ⟨nofun, nofun⟩ rfl id ?_
    intro string hprinted
    cases hprinted
    exact ((text_prefix_mem _).trans (List.take_prefix _ _)).trans (h.down c)
  | clientFails a c _ hc => exact h.client hc ⟨nofun, nofun⟩ rfl id nofun
  | accept c rest _ hq => exact h.accept hq
  | acceptFails => exact h
  | serverRecv c n hs hn =>
    have hup : (s.link c).up = [] → (s.link c).up.drop n = [] := by
      intro hnil
      rw [hnil, List.drop_nil]
    rcases check_cases { s with
        buffer := Getfile.recvInto s.buffer ((s.link c).up.take n)
        link := Function.update s.link c { s.link c with up := (s.link c).up.drop n } } c n with
      ⟨_, heq⟩ | ⟨_, heq⟩ | ⟨_, _, heq⟩
    · rw [heq]
      exact (h.received hs .undefined hup (Or.inl rfl)).stop rfl
    · rw [heq]
      exact (h.received hs .exited hup (Or.inl rfl)).stop rfl
    · rw [heq]
      exact h.received hs _ hup (Or.inr ⟨n, rfl, taken_echoed (h.up c (Or.inr hs)) hn⟩)
  | serverRecvFails c hs => exact h.stop rfl
  | serverSend c numBytes n hs hn => exact h.replied hs hn

/-- **Nobody gets the bytes of another one.** For any number of clients, in any interleaving, with
sends and receives of any sizes and whatever fails: what a client prints is the beginning of its
own message, and at most 15 bytes of it. -/
theorem echo_own (message : C → Bytes) (s : St C) (hs : (sys message).Reach (fun _ _ => True) s) :
    ∀ c string, s.client c = .printed string → string <+: echoed (message c) := by
  have hinv := Sys.Reach.inv (fun s hinit => own_init message hinit) own_step s hs
  exact hinv.printed

/-- Two clients: the first one gets a part of its message back when the other one is served. -/
def twoMessages (c : Fin 2) : Bytes := if c = 0 then ascii "first" else ascii "second"

theorem echo_own_two : ∃ s : St (Fin 2),
    (∀ c string, s.client c = .printed string → string <+: echoed (twoMessages c)) ∧
      s.client 0 = .printed (ascii "fir") ∧ s.server = .replying 1 6 := by
  have hrun : ((sys twoMessages).run .start [.connect 0, .connect 1, .accept, .send 0 5,
      .serverRecv 3, .serverSend 3, .accept, .send 1 6, .serverRecv 6, .recv 0 3]).map
      (fun s => (s.client 0, s.server)) = some (.printed (ascii "fir"), .replying 1 6) := by decide
  rcases Option.map_eq_some_iff.mp hrun with ⟨s, hs, hout⟩
  rw [Prod.mk.injEq] at hout
  refine ⟨s, ?_, hout⟩
  apply echo_own twoMessages
  exact Sys.reach_of_run (.init start_start) (Sys.runOk_of_all fun _ _ => trivial) hs

end IntroOS.Echo
