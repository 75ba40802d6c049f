import IntroOS.Base.CStr
import IntroOS.Base.Sys
import IntroOS.Base.Threads

/-! # The proxy/cache protocol

Handler threads of the proxy (`handle_with_cache`) and worker threads of the cache daemon
(`simplecached.c`), over two System V message queues, two semaphores and one shared-memory
segment.

1. **Messages**: a request is `path`, a space and the segment name; a response is
   `NOT_FOUND` or the file's length in decimal. No message names the request it answers.
2. **Phases**: where a handler or a worker stands in its source, with its local variables.
3. **Steps**: one for each system call, with its failure as a step of its own. `exit` in a
   worker ends all of them.

Two things are left to other modules: a worker whose `shm_open`, `ftruncate` or `mmap` fails
(`IntroOS.Cache.Shm`), and queues that are full (`IntroOS.Cache.Progress`).

`files` is the lookup of `simplecache_get` with the content of the file it finds. `asked` and
`serving` are history: nothing in the code reads them.
-/

namespace IntroOS.Cache

/-! ## Messages -/

/-- `BUFSIZE` of `handle_with_cache.c` and of `simplecached.c`. -/
def bufSize : Nat := 6200

/-- The segment name that `webproxy` gives to every handler. -/
def segName : Bytes := ascii "temp"

/-- What a handler puts into `mybuf.buffer`. -/
def requestText (path : Bytes) : Bytes := path ++ (ascii " " ++ segName)

/-- What a worker takes for the path: `strtok_r(path, " ", &path)`. -/
def requestPath (msg : Bytes) : Option Bytes := (token isSp msg).map Prod.fst

/-- A path that is not empty, has no space or NUL and leaves room in `mybuf.buffer` for the
space, the name and the NUL. -/
structure ReqPath where
  bytes : Bytes
  ne : bytes ≠ []
  clean : ∀ b ∈ bytes, b ≠ 32 ∧ b ≠ 0
  fits : (requestText bytes).length < bufSize

theorem requestPath_requestText (p : ReqPath) : requestPath (requestText p.bytes) = some p.bytes := by
  have hclean : Clean isSp p.bytes := by
    intro b hb
    simp [isSp, (p.clean b hb).1]
  have hsp : ascii " " = [32] := by decide
  unfold requestPath requestText
  rw [hsp, List.singleton_append, token_cut p.ne hclean (isSp_iff.mpr rfl)]
  rfl

/-- Two paths, for the runs on fixed inputs. -/
def pathA : ReqPath := ⟨ascii "/a", by decide, forall_of_all (by decide), by decide⟩

def pathB : ReqPath := ⟨ascii "/b", by decide, forall_of_all (by decide), by decide⟩

/-- A message of the response queue: its text. `path` is history: the request it answers. -/
structure Response where
  text : Bytes
  path : Bytes
deriving DecidableEq, Repr

def notFound : Bytes := ascii "NOT_FOUND"

/-- `snprintf(str, 49, "%d\n", (int) file_len)`. -/
def lengthText (fileLen : Nat) : Bytes := signedDecimal (toInt32 fileLen) ++ ascii "\n"

/-- What a handler reads in a response: `none` leads to a FILE_NOT_FOUND header, `some` is the
length it announces and then copies. -/
def readResponse (msg : Bytes) : Option Nat :=
  if msg = notFound then none
  else if atoi msg = -1 then none
  else some (toSize (atoi msg))

/-! ## Phases -/

/-- Where a handler stands. -/
inductive Handler where
  /-- not in a call -/
  | idle
  /-- the request is sent; at `msgrcv` -/
  | waiting (path : Bytes)
  /-- in the chunk loop; `bytes_transferred` is the length of `sent` -/
  | sending (path : Bytes) (resp : Response) (fileLen : Nat) (sent : Bytes)
  /-- returned, with the response it had (if any) and the content bytes it sent -/
  | finished (path : Bytes) (resp : Option Response) (sent : Bytes)
deriving DecidableEq, Repr

/-- Where a worker stands. `content` is what `cache_fd` leads to. -/
inductive Worker where
  /-- at `sem_wait(&command_mutex)` -/
  | idle
  /-- at `msgrcv` -/
  | receiving
  /-- at `sem_post(&command_mutex)` -/
  | received (msg : Bytes)
  /-- at `strtok_r`, `simplecache_get` and `fstat` -/
  | lookup (msg : Bytes)
  /-- at the `msgsnd` of NOT_FOUND -/
  | missing (path : Bytes)
  /-- at the `msgsnd` of NOT_FOUND after a failed `fstat` -/
  | statFailed (path : Bytes)
  /-- at `msgctl(.., IPC_RMID, ..)` after a failed `fstat` -/
  | removing
  /-- at `sem_wait(&response_mutex)` -/
  | found (path content : Bytes)
  /-- at `ftruncate` -/
  | truncating (path content : Bytes)
  /-- in the copy loop -/
  | copying (path content : Bytes) (transferred : Nat)
  /-- at `sem_post(&response_mutex)` -/
  | posted
  /-- the thread function returned -/
  | returned
deriving DecidableEq, Repr

/-- The whole system, for handlers `H` and workers `W`. -/
structure St (H W : Type*) where
  /-- proxy to cache -/
  reqQ : List Bytes
  /-- cache to proxy -/
  respQ : List Response
  /-- the response queue was not removed -/
  respOpen : Bool
  /-- the cache process did not exit -/
  cacheUp : Bool
  commandMutex : Nat
  responseMutex : Nat
  /-- the content of the segment -/
  seg : Bytes
  handler : H → Handler
  worker : W → Worker
  /-- paths of the handlers at `msgrcv`, in the order of their requests -/
  asked : List Bytes
  /-- paths that workers took and did not answer, in the order they were taken -/
  serving : List Bytes

/-! ## Steps -/

/-- What a handler may do next. -/
inductive HandlerAct where
  | request (p : ReqPath)
  | requestFails (p : ReqPath)
  | msgrcv
  | msgrcvFails
  /-- `pread` returned `n` bytes (0: nothing or an error), of which `gfs_send` took `m` -/
  | chunk (n m : Nat)
  /-- the loop is over -/
  | finish

/-- What a worker may do next. -/
inductive WorkerAct where
  | takeCommand
  | msgrcv
  | msgrcvFails
  | postCommand
  | lookup
  | fstatFails
  | msgsnd
  | msgsndFails
  | remove
  | removeFails
  | takeResponse
  | truncate
  /-- `pread` returned `n` bytes (0: nothing or an error), which `memcpy` copies -/
  | copy (n : Nat)
  | postResponse
deriving DecidableEq, Repr

inductive Act (H W : Type*) where
  | handler (h : H) (a : HandlerAct)
  | worker (w : W) (a : WorkerAct)

variable {H W : Type*}

/-- No system call of the step fails or falls short. -/
def Act.succeeds : Act H W → Bool
  | .handler _ (.requestFails _) | .handler _ .msgrcvFails => false
  | .handler _ (.chunk n m) => n != 0 && m == n
  | .handler _ (.request _) | .handler _ .msgrcv | .handler _ .finish => true
  | .worker _ .msgrcvFails | .worker _ .fstatFails | .worker _ .msgsndFails
  | .worker _ .removeFails => false
  | .worker _ (.copy n) => n != 0
  | .worker _ _ => true

/-- Between two calls. -/
def Handler.free : Handler → Bool
  | .idle | .finished _ _ _ => true
  | .waiting _ | .sending _ _ _ _ => false

/-- Where a handler goes with a response. -/
def Handler.consume (path : Bytes) (r : Response) : Handler :=
  match readResponse r.text with
  | none => .finished path (some r) []
  | some fileLen => .sending path r fileLen []

/-- `ftruncate`. -/
def ftruncate (seg : Bytes) (n : Nat) : Bytes := seg.take n ++ List.replicate (n - seg.length) 0

/-- `memcpy(addr+off, data, ..)` inside the segment. -/
def overwrite (seg : Bytes) (off : Nat) (data : Bytes) : Bytes :=
  seg.take off ++ (data ++ seg.drop (off + data.length))

section Step

variable [DecidableEq H] [DecidableEq W]

/-- A step of the handler `h`. -/
def handlerStep (s : St H W) (h : H) : HandlerAct → Option (St H W)
  | .request p =>
    if (s.handler h).free then
      some { s with
        handler := Function.update s.handler h (.waiting p.bytes)
        reqQ := s.reqQ ++ [requestText p.bytes]
        asked := s.asked ++ [p.bytes] }
    else none
  | .requestFails p =>
    -- `ftok`, `msgget` or `msgsnd`
    if (s.handler h).free then
      some { s with handler := Function.update s.handler h (.finished p.bytes none []) }
    else none
  | .msgrcv =>
    match s.handler h, s.respOpen, s.respQ with
    | .waiting path, true, r :: rest =>
      some { s with
        handler := Function.update s.handler h (.consume path r)
        respQ := rest
        asked := s.asked.erase path }
    | _, _, _ => none
  | .msgrcvFails =>
    match s.handler h with
    | .waiting path =>
      some { s with
        handler := Function.update s.handler h (.finished path none [])
        asked := s.asked.erase path }
    | _ => none
  | .chunk n m =>
    match s.handler h with
    | .sending path r fileLen sent =>
      if ¬ sent.length < fileLen then none
      -- `pread` brought nothing, or failed
      else if n = 0 then
        some { s with handler := Function.update s.handler h (.finished path (some r) sent) }
      else if bufSize < n ∨ s.seg.length < sent.length + n ∨ n < m then none
      else
        -- whatever is in the segment by now
        let data := (s.seg.drop sent.length).take n
        if m = n then
          some { s with
            handler := Function.update s.handler h (.sending path r fileLen (sent ++ data)) }
        else
          -- `gfs_send` took less than that
          some { s with
            handler := Function.update s.handler h (.finished path (some r) (sent ++ data.take m)) }
    | _ => none
  | .finish =>
    match s.handler h with
    | .sending path r fileLen sent =>
      if sent.length < fileLen then none
      else some { s with handler := Function.update s.handler h (.finished path (some r) sent) }
    | _ => none

/-- The answer a worker is about to send, and where it goes from there. -/
def Worker.answer : Worker → Option (Response × Worker)
  | .missing path => some (⟨notFound, path⟩, .idle)
  | .statFailed path => some (⟨notFound, path⟩, .removing)
  | .copying path content transferred =>
    if transferred < content.length then none
    else some (⟨lengthText content.length, path⟩, .posted)
  | _ => none

/-- A step of the worker `w`, as long as the process runs. -/
def workerStep (files : Bytes → Option Bytes) (s : St H W) (w : W) :
    WorkerAct → Option (St H W)
  | .takeCommand =>
    if s.worker w = .idle ∧ 0 < s.commandMutex then
      some { s with
        worker := Function.update s.worker w .receiving
        commandMutex := s.commandMutex - 1 }
    else none
  | .msgrcv =>
    match s.worker w, s.reqQ with
    | .receiving, msg :: rest =>
      some { s with
        worker := Function.update s.worker w (.received msg)
        reqQ := rest
        serving := s.serving ++ (requestPath msg).toList }
    | _, _ => none
  | .msgrcvFails =>
    -- `exit(CACHE_FAILURE)`, with all threads
    if s.worker w = .receiving then some { s with cacheUp := false } else none
  | .postCommand =>
    match s.worker w with
    | .received msg =>
      some { s with
        worker := Function.update s.worker w (.lookup msg)
        commandMutex := s.commandMutex + 1 }
    | _ => none
  | .lookup =>
    match s.worker w with
    | .lookup msg =>
      match requestPath msg with
      -- a message without a path: `simplecache_get(NULL)`
      | none => none
      | some path =>
        match files path with
        | none => some { s with worker := Function.update s.worker w (.missing path) }
        | some content => some { s with worker := Function.update s.worker w (.found path content) }
    | _ => none
  | .fstatFails =>
    match s.worker w with
    | .lookup msg =>
      match requestPath msg with
      | none => none
      | some path =>
        match files path with
        | none => none
        -- NOT_FOUND for a file that is there, and the thread returns behind it
        | some _ => some { s with worker := Function.update s.worker w (.statFailed path) }
    | _ => none
  | .msgsnd =>
    match (s.worker w).answer, s.respOpen with
    | some (r, next), true =>
      some { s with
        worker := Function.update s.worker w next
        respQ := s.respQ ++ [r]
        serving := s.serving.erase r.path }
    | _, _ => none
  | .msgsndFails =>
    match (s.worker w).answer with
    | some _ => some { s with cacheUp := false }
    | none => none
  | .remove =>
    -- IPC_RMID takes the queue away from everybody
    if s.worker w = .removing ∧ s.respOpen = true then
      some { s with
        worker := Function.update s.worker w .returned
        respQ := []
        respOpen := false }
    else none
  | .removeFails =>
    if s.worker w = .removing then some { s with cacheUp := false } else none
  | .takeResponse =>
    match s.worker w with
    | .found path content =>
      if 0 < s.responseMutex then
        some { s with
          worker := Function.update s.worker w (.truncating path content)
          responseMutex := s.responseMutex - 1 }
      else none
    | _ => none
  | .truncate =>
    match s.worker w with
    | .truncating path content =>
      some { s with
        worker := Function.update s.worker w (.copying path content 0)
        seg := ftruncate s.seg content.length }
    | _ => none
  | .copy n =>
    match s.worker w with
    | .copying path content transferred =>
      if ¬ transferred < content.length then none
      -- the thread returns with `response_mutex` taken
      else if n = 0 then some { s with worker := Function.update s.worker w .returned }
      else if bufSize < n ∨ content.length < transferred + n then none
      -- a write past the end of the segment kills the process
      else if s.seg.length < transferred + n then some { s with cacheUp := false }
      else
        some { s with
          worker := Function.update s.worker w (.copying path content (transferred + n))
          seg := overwrite s.seg transferred ((content.drop transferred).take n) }
    | _ => none
  | .postResponse =>
    if s.worker w = .posted then
      some { s with
        worker := Function.update s.worker w .idle
        responseMutex := s.responseMutex + 1 }
    else none

/-- Handlers and workers in any interleaving, on queues that start empty. -/
def sys (files : Bytes → Option Bytes) : Sys (St H W) (Act H W) where
  Init s :=
    s.reqQ = [] ∧ s.respQ = [] ∧ s.respOpen = true ∧ s.cacheUp = true ∧
    s.commandMutex = 1 ∧ s.responseMutex = 1 ∧
    (∀ h, s.handler h = .idle) ∧ (∀ w, s.worker w = .idle) ∧ s.asked = [] ∧ s.serving = []
  step s
    | .handler h a => handlerStep s h a
    | .worker w a => if s.cacheUp then workerStep files s w a else none

/-- All threads between two calls, the segment as `webproxy` left it. -/
def St.start (seg : Bytes) : St H W where
  reqQ := []
  respQ := []
  respOpen := true
  cacheUp := true
  commandMutex := 1
  responseMutex := 1
  seg := seg
  handler := fun _ => .idle
  worker := fun _ => .idle
  asked := []
  serving := []

theorem start_init (files : Bytes → Option Bytes) (seg : Bytes) :
    (sys files).Init (St.start seg : St H W) :=
  ⟨rfl, rfl, rfl, rfl, rfl, rfl, fun _ => rfl, fun _ => rfl, rfl, rfl⟩

/-! ## What a step can do

One constructor for each way through `handlerStep` and `workerStep`; every invariant is
proved by cases on these. -/

/-- The ways through `handlerStep`. -/
inductive HandlerCase (s : St H W) (h : H) : HandlerAct → St H W → Prop where
  | request (p : ReqPath) : (s.handler h).free = true →
      HandlerCase s h (.request p) { s with
        handler := Function.update s.handler h (.waiting p.bytes)
        reqQ := s.reqQ ++ [requestText p.bytes]
        asked := s.asked ++ [p.bytes] }
  | requestFails (p : ReqPath) : (s.handler h).free = true →
      HandlerCase s h (.requestFails p) { s with
        handler := Function.update s.handler h (.finished p.bytes none []) }
  | msgrcv (path : Bytes) (r : Response) (rest : List Response) :
      s.handler h = .waiting path → s.respQ = r :: rest →
      HandlerCase s h .msgrcv { s with
        handler := Function.update s.handler h (.consume path r)
        respQ := rest
        asked := s.asked.erase path }
  | msgrcvFails (path : Bytes) : s.handler h = .waiting path →
      HandlerCase s h .msgrcvFails { s with
        handler := Function.update s.handler h (.finished path none [])
        asked := s.asked.erase path }
  | preadFails (m : Nat) (path : Bytes) (r : Response) (fileLen : Nat) (sent : Bytes) :
      s.handler h = .sending path r fileLen sent → sent.length < fileLen →
      HandlerCase s h (.chunk 0 m) { s with
        handler := Function.update s.handler h (.finished path (some r) sent) }
  | chunk (n : Nat) (path : Bytes) (r : Response) (fileLen : Nat) (sent : Bytes) :
      s.handler h = .sending path r fileLen sent → sent.length < fileLen → 0 < n →
      sent.length + n ≤ s.seg.length →
      HandlerCase s h (.chunk n n) { s with
        handler := Function.update s.handler h
          (.sending path r fileLen (sent ++ (s.seg.drop sent.length).take n)) }
  | shortSend (n m : Nat) (path : Bytes) (r : Response) (fileLen : Nat) (sent : Bytes) :
      s.handler h = .sending path r fileLen sent → sent.length < fileLen → m < n →
      sent.length + n ≤ s.seg.length →
      HandlerCase s h (.chunk n m) { s with
        handler := Function.update s.handler h
          (.finished path (some r) (sent ++ ((s.seg.drop sent.length).take n).take m)) }
  | finish (path : Bytes) (r : Response) (fileLen : Nat) (sent : Bytes) :
      s.handler h = .sending path r fileLen sent → ¬ sent.length < fileLen →
      HandlerCase s h .finish { s with
        handler := Function.update s.handler h (.finished path (some r) sent) }

/-- The ways through `workerStep`. -/
inductive WorkerCase (files : Bytes → Option Bytes) (s : St H W) (w : W) :
    WorkerAct → St H W → Prop where
  | takeCommand : s.worker w = .idle → 0 < s.commandMutex →
      WorkerCase files s w .takeCommand { s with
        worker := Function.update s.worker w .receiving
        commandMutex := s.commandMutex - 1 }
  | msgrcv (msg : Bytes) (rest : List Bytes) : s.worker w = .receiving → s.reqQ = msg :: rest →
      WorkerCase files s w .msgrcv { s with
        worker := Function.update s.worker w (.received msg)
        reqQ := rest
        serving := s.serving ++ (requestPath msg).toList }
  | msgrcvFails : s.worker w = .receiving →
      WorkerCase files s w .msgrcvFails { s with cacheUp := false }
  | postCommand (msg : Bytes) : s.worker w = .received msg →
      WorkerCase files s w .postCommand { s with
        worker := Function.update s.worker w (.lookup msg)
        commandMutex := s.commandMutex + 1 }
  | missing (msg path : Bytes) : s.worker w = .lookup msg → requestPath msg = some path →
      files path = none →
      WorkerCase files s w .lookup { s with worker := Function.update s.worker w (.missing path) }
  | found (msg path content : Bytes) : s.worker w = .lookup msg → requestPath msg = some path →
      files path = some content →
      WorkerCase files s w .lookup { s with
        worker := Function.update s.worker w (.found path content) }
  | fstatFails (msg path content : Bytes) : s.worker w = .lookup msg →
      requestPath msg = some path → files path = some content →
      WorkerCase files s w .fstatFails { s with
        worker := Function.update s.worker w (.statFailed path) }
  | msgsnd (r : Response) (next : Worker) : (s.worker w).answer = some (r, next) →
      WorkerCase files s w .msgsnd { s with
        worker := Function.update s.worker w next
        respQ := s.respQ ++ [r]
        serving := s.serving.erase r.path }
  | msgsndFails : WorkerCase files s w .msgsndFails { s with cacheUp := false }
  | remove : s.worker w = .removing →
      WorkerCase files s w .remove { s with
        worker := Function.update s.worker w .returned
        respQ := []
        respOpen := false }
  | removeFails : s.worker w = .removing →
      WorkerCase files s w .removeFails { s with cacheUp := false }
  | takeResponse (path content : Bytes) : s.worker w = .found path content →
      0 < s.responseMutex →
      WorkerCase files s w .takeResponse { s with
        worker := Function.update s.worker w (.truncating path content)
        responseMutex := s.responseMutex - 1 }
  | truncate (path content : Bytes) : s.worker w = .truncating path content →
      WorkerCase files s w .truncate { s with
        worker := Function.update s.worker w (.copying path content 0)
        seg := ftruncate s.seg content.length }
  | preadFails (path content : Bytes) (transferred : Nat) :
      s.worker w = .copying path content transferred → transferred < content.length →
      WorkerCase files s w (.copy 0) { s with worker := Function.update s.worker w .returned }
  | crash (n : Nat) (path content : Bytes) (transferred : Nat) :
      s.worker w = .copying path content transferred → transferred + n ≤ content.length →
      s.seg.length < transferred + n →
      WorkerCase files s w (.copy n) { s with cacheUp := false }
  | copy (n : Nat) (path content : Bytes) (transferred : Nat) :
      s.worker w = .copying path content transferred → 0 < n →
      transferred + n ≤ content.length → transferred + n ≤ s.seg.length →
      WorkerCase files s w (.copy n) { s with
        worker := Function.update s.worker w (.copying path content (transferred + n))
        seg := overwrite s.seg transferred ((content.drop transferred).take n) }
  | postResponse : s.worker w = .posted →
      WorkerCase files s w .postResponse { s with
        worker := Function.update s.worker w .idle
        responseMutex := s.responseMutex + 1 }

omit [DecidableEq W] in
theorem handlerStep_cases {s s' : St H W} {h : H} {a : HandlerAct}
    (hstep : handlerStep s h a = some s') : HandlerCase s h a s' := by
  cases a with
  | request p =>
    simp only [handlerStep] at hstep
    split at hstep
    · rename_i hfree
      cases hstep
      exact .request p hfree
    · cases hstep
  | requestFails p =>
    simp only [handlerStep] at hstep
    split at hstep
    · rename_i hfree
      cases hstep
      exact .requestFails p hfree
    · cases hstep
  | msgrcv =>
    simp only [handlerStep] at hstep
    split at hstep
    · rename_i path r rest hh _ hq
      cases hstep
      exact .msgrcv path r rest hh hq
    · cases hstep
  | msgrcvFails =>
    simp only [handlerStep] at hstep
    split at hstep
    · rename_i path hh
      cases hstep
      exact .msgrcvFails path hh
    · cases hstep
  | chunk n m =>
    simp only [handlerStep] at hstep
    split at hstep
    · rename_i path r fileLen sent hh
      by_cases hlt : sent.length < fileLen
      · by_cases hn : n = 0
        · subst hn
          simp only [hlt, not_true_eq_false, if_false, if_true] at hstep
          cases hstep
          exact .preadFails m path r fileLen sent hh hlt
        · by_cases hbad : bufSize < n ∨ s.seg.length < sent.length + n ∨ n < m
          · simp only [hlt, hn, hbad, not_true_eq_false, if_false, if_true] at hstep
            cases hstep
          · rw [not_or, not_or] at hbad
            by_cases hm : m = n
            · subst hm
              simp only [hlt, hn, hbad, not_true_eq_false, or_self, if_false, if_true] at hstep
              cases hstep
              exact .chunk m path r fileLen sent hh hlt (by omega) (by omega)
            · simp only [hlt, hn, hbad, hm, not_true_eq_false, or_self, if_false] at hstep
              cases hstep
              exact .shortSend n m path r fileLen sent hh hlt (by omega) (by omega)
      · simp only [hlt, not_false_eq_true, if_true] at hstep
        cases hstep
    · cases hstep
  | finish =>
    simp only [handlerStep] at hstep
    split at hstep
    · rename_i path r fileLen sent hh
      by_cases hlt : sent.length < fileLen
      · simp only [hlt, if_true] at hstep
        cases hstep
      · simp only [hlt, if_false] at hstep
        cases hstep
        exact .finish path r fileLen sent hh hlt
    · cases hstep

omit [DecidableEq H] in
theorem workerStep_cases {files : Bytes → Option Bytes} {s s' : St H W} {w : W} {a : WorkerAct}
    (hstep : workerStep files s w a = some s') : WorkerCase files s w a s' := by
  cases a with
  | takeCommand =>
    simp only [workerStep] at hstep
    split at hstep
    · rename_i hcond
      cases hstep
      exact .takeCommand hcond.1 hcond.2
    · cases hstep
  | msgrcv =>
    simp only [workerStep] at hstep
    split at hstep
    · rename_i msg rest hw hq
      cases hstep
      exact .msgrcv msg rest hw hq
    · cases hstep
  | msgrcvFails =>
    simp only [workerStep] at hstep
    split at hstep
    · rename_i hw
      cases hstep
      exact .msgrcvFails hw
    · cases hstep
  | postCommand =>
    simp only [workerStep] at hstep
    split at hstep
    · rename_i msg hw
      cases hstep
      exact .postCommand msg hw
    · cases hstep
  | lookup =>
    simp only [workerStep] at hstep
    split at hstep
    · rename_i msg hw
      split at hstep
      · cases hstep
      · rename_i path hp
        split at hstep
        · rename_i hf
          cases hstep
          exact .missing msg path hw hp hf
        · rename_i content hf
          cases hstep
          exact .found msg path content hw hp hf
    · cases hstep
  | fstatFails =>
    simp only [workerStep] at hstep
    split at hstep
    · rename_i msg hw
      split at hstep
      · cases hstep
      · rename_i path hp
        split at hstep
        · cases hstep
        · rename_i content hf
          cases hstep
          exact .fstatFails msg path content hw hp hf
    · cases hstep
  | msgsnd =>
    simp only [workerStep] at hstep
    split at hstep
    · rename_i r next hans _
      cases hstep
      exact .msgsnd r next hans
    · cases hstep
  | msgsndFails =>
    simp only [workerStep] at hstep
    split at hstep
    · cases hstep
      exact .msgsndFails
    · cases hstep
  | remove =>
    simp only [workerStep] at hstep
    split at hstep
    · rename_i hcond
      cases hstep
      exact .remove hcond.1
    · cases hstep
  | removeFails =>
    simp only [workerStep] at hstep
    split at hstep
    · rename_i hw
      cases hstep
      exact .removeFails hw
    · cases hstep
  | takeResponse =>
    simp only [workerStep] at hstep
    split at hstep
    · rename_i path content hw
      by_cases hm : 0 < s.responseMutex
      · simp only [hm, if_true] at hstep
        cases hstep
        exact .takeResponse path content hw hm
      · simp only [hm, if_false] at hstep
        cases hstep
    · cases hstep
  | truncate =>
    simp only [workerStep] at hstep
    split at hstep
    · rename_i path content hw
      cases hstep
      exact .truncate path content hw
    · cases hstep
  | copy n =>
    simp only [workerStep] at hstep
    split at hstep
    · rename_i path content transferred hw
      by_cases hlt : transferred < content.length
      · by_cases hn : n = 0
        · subst hn
          simp only [hlt, not_true_eq_false, if_false, if_true] at hstep
          cases hstep
          exact .preadFails path content transferred hw hlt
        · by_cases hbad : bufSize < n ∨ content.length < transferred + n
          · simp only [hlt, hn, hbad, not_true_eq_false, if_false, if_true] at hstep
            cases hstep
          · by_cases hseg : s.seg.length < transferred + n
            · simp only [hlt, hn, hbad, hseg, not_true_eq_false, if_false, if_true] at hstep
              cases hstep
              exact .crash n path content transferred hw (by omega) hseg
            · simp only [hlt, hn, hbad, hseg, not_true_eq_false, if_false] at hstep
              cases hstep
              exact .copy n path content transferred hw (by omega) (by omega) (by omega)
      · simp only [hlt, not_false_eq_true, if_true] at hstep
        cases hstep
    · cases hstep
  | postResponse =>
    simp only [workerStep] at hstep
    split at hstep
    · rename_i hw
      cases hstep
      exact .postResponse hw
    · cases hstep

/-- The two kinds of answers: NOT_FOUND, and the length of a file that is copied. -/
theorem Worker.answer_cases {x next : Worker} {r : Response} (h : x.answer = some (r, next)) :
    (∃ path, r = ⟨notFound, path⟩ ∧
      ((x = .missing path ∧ next = .idle) ∨ (x = .statFailed path ∧ next = .removing))) ∨
    (∃ path content transferred, x = .copying path content transferred ∧
      ¬ transferred < content.length ∧ r = ⟨lengthText content.length, path⟩ ∧ next = .posted) := by
  unfold Worker.answer at h
  split at h
  · rename_i path
    rw [Option.some.injEq, Prod.mk.injEq] at h
    exact Or.inl ⟨path, h.1.symm, Or.inl ⟨rfl, h.2.symm⟩⟩
  · rename_i path
    rw [Option.some.injEq, Prod.mk.injEq] at h
    exact Or.inl ⟨path, h.1.symm, Or.inr ⟨rfl, h.2.symm⟩⟩
  · rename_i path content transferred
    by_cases hlt : transferred < content.length
    · rw [if_pos hlt] at h
      cases h
    · rw [if_neg hlt, Option.some.injEq, Prod.mk.injEq] at h
      exact Or.inr ⟨path, content, transferred, rfl, hlt, h.1.symm, h.2.symm⟩
  · cases h

/-- Every step is one of the cases. -/
theorem sys_step_cases {files : Bytes → Option Bytes} {s s' : St H W} {a : Act H W}
    (hstep : (sys files).step s a = some s') :
    (∃ h b, a = .handler h b ∧ HandlerCase s h b s') ∨
    (∃ w b, a = .worker w b ∧ s.cacheUp = true ∧ WorkerCase files s w b s') := by
  cases a with
  | handler h b => exact Or.inl ⟨h, b, rfl, handlerStep_cases hstep⟩
  | worker w b =>
    have hif : (if s.cacheUp then workerStep files s w b else none) = some s' := hstep
    by_cases hup : s.cacheUp = true
    · rw [if_pos hup] at hif
      exact Or.inr ⟨w, b, rfl, hup, workerStep_cases hif⟩
    · rw [if_neg hup] at hif
      cases hif

end Step

end IntroOS.Cache
