import WeaverDB.Snapshot.Crash

/-! # The snapshots that connections hold

Each connection has a `SnapshotHolder` with a query, a serializable and a user snapshot, and
`ExecutorStart` copies the query snapshot. `CloneParentTransaction` gives a subordinate connection those
of its parent. A label carries the snapshot the call computes, so a run of the sessions is a run of the
server (`onServer_run`).
-/

namespace WeaverDB.Snapshot
open Foundations TransLog List

inductive XactIsoLevel where
  | readCommitted | serializable | all | user
  deriving DecidableEq, Repr

/-- `SnapshotAny`, or one that was computed. -/
inductive QuerySnapshot where
  | any
  | computed (snapshot : SnapshotData)
  deriving DecidableEq

/-- The snapshots that a connection keeps for its transaction. -/
structure SnapshotHolder where
  userSnapshot : Option SnapshotData
  querySnapshot : Option QuerySnapshot
  serializableSnapshot : Option SnapshotData
  deriving DecidableEq

/-- One connection: slot and id of its transaction, and the snapshots of its queries besides the
holder. -/
structure Env where
  transaction : Option (Nat × TransactionId)
  isoLevel : XactIsoLevel
  holder : SnapshotHolder
  estates : List SnapshotData
  deriving DecidableEq

structure Sessions where
  server : Server
  env : Nat → Env

def QuerySnapshot.data : QuerySnapshot → List SnapshotData
  | .any => []
  | .computed snapshot => [snapshot]

/-- All snapshots that the connection can look at tuples with. -/
def Env.snapshots (env : Env) : List SnapshotData :=
  env.holder.userSnapshot.toList ++ env.holder.serializableSnapshot.toList ++
    (env.holder.querySnapshot.toList.flatMap QuerySnapshot.data ++ env.estates)

theorem mem_snapshots (env : Env) (taken : SnapshotData) : taken ∈ env.snapshots ↔
      env.holder.userSnapshot = some taken ∨ env.holder.serializableSnapshot = some taken ∨
        env.holder.querySnapshot = some (.computed taken) ∨ taken ∈ env.estates := by
  have hquery : taken ∈ env.holder.querySnapshot.toList.flatMap QuerySnapshot.data ↔
      env.holder.querySnapshot = some (.computed taken) := by
    obtain _ | _ | other := env.holder.querySnapshot
    · simp
    · simp [QuerySnapshot.data]
    · simp [QuerySnapshot.data, eq_comm]
  rw [Env.snapshots, mem_append, mem_append, mem_append, hquery, Option.mem_toList, Option.mem_toList, or_assoc]

/-- The next transaction starts without snapshots. -/
def freeXactSnapshot : SnapshotHolder :=
  { userSnapshot := none, querySnapshot := none, serializableSnapshot := none }

/-- With the snapshot that was computed, if one was, and whether it is serializable. -/
abbrev HolderResult := SnapshotHolder × Server × Option (Bool × SnapshotData)

/-- The first call of a transaction computes the serializable snapshot, later ones go by the level. -/
def setQuerySnapshot (s : Server) (me : Nat) (current : TransactionId) (level : XactIsoLevel)
    (holder : SnapshotHolder) : Except String HolderResult :=
  match holder.serializableSnapshot with
  | none =>
    match getSnapshotData s me current true with
    | .error e => .error e
    | .ok (taken, s') =>
      .ok ({ userSnapshot := none, querySnapshot := some (.computed taken),
             serializableSnapshot := some taken }, s', some (true, taken))
  | some serializable =>
    let readCommitted : Except String HolderResult :=
      match getSnapshotData s me current false with
      | .error e => .error e
      | .ok (taken, s') =>
        .ok ({ holder with querySnapshot := some (.computed taken) }, s', some (false, taken))
    match level with
    | .serializable =>
      .ok ({ holder with querySnapshot := some (.computed serializable) }, s, none)
    | .all => .ok ({ holder with querySnapshot := some .any }, s, none)
    | .user =>
      match holder.userSnapshot with
      | some user => .ok ({ holder with querySnapshot := some (.computed user) }, s, none)
      | none => readCommitted
    | .readCommitted => readCommitted

/-- Computes a snapshot at any time and drops no other. -/
def takeUserSnapshot (s : Server) (me : Nat) (current : TransactionId) (holder : SnapshotHolder) :
    Except String HolderResult :=
  if holder.userSnapshot.isSome then .error "already holding a user snapshot"
  else
    match getSnapshotData s me current false with
    | .error e => .error e
    | .ok (taken, s') =>
      .ok ({ holder with userSnapshot := some taken, querySnapshot := some (.computed taken) }, s',
        some (false, taken))

def dropUserSnapshot (holder : SnapshotHolder) : SnapshotHolder := { holder with userSnapshot := none }

/-- The query keeps a copy of the query snapshot. -/
def executorStart (env : Env) : Env :=
  { env with estates := env.holder.querySnapshot.toList.flatMap QuerySnapshot.data ++ env.estates }

/-- A subordinate connection gets the transaction and the snapshots of its parent. -/
def cloneParentTransaction (parent child : Env) : Env :=
  { child with
    transaction := parent.transaction
    isoLevel := parent.isoLevel
    holder := parent.holder
    estates := [] }

/-- The calls that compute snapshots. -/
inductive Request where
  | query | user
  deriving DecidableEq, Repr

def Request.exec (s : Server) (me : Nat) (current : TransactionId) (env : Env) :
    Request → Except String HolderResult
  | .query => setQuerySnapshot s me current env.isoLevel env.holder
  | .user => takeUserSnapshot s me current env.holder

/-- A label has the snapshot that the call computes. -/
inductive SessionEvent where
  | start (i : Nat)
  | publish (i : Nat)
  | goesOn (e : Event)
  | request (r : Request) (me owner : Nat) (computed : Option (Bool × SnapshotData))
  | dropUserSnapshot (me : Nat)
  | setIsoLevel (me : Nat) (level : XactIsoLevel)
  | executorStart (me : Nat)
  | executorEnd (me : Nat) (left : List SnapshotData)
  | clone (me owner : Nat)

/-- The step of the server that belongs to it. -/
def SessionEvent.onServer : SessionEvent → List Event
  | .start i => [.assign i]
  | .publish i => [.publish i]
  | .goesOn e => [e]
  | .request _ me owner (some (serializable, taken)) => [.snapshot me owner serializable taken]
  | _ => []

/-- The steps by which a transaction ends. -/
def Event.isEnding : Event → Bool
  | .finish _ | .softCommit _ | .hardCommit _ | .abort _ | .reset _ => true
  | _ => false

def Sessions.setEnv (b : Sessions) (me : Nat) (env : Env) : Sessions :=
  { b with env := Function.update b.env me env }

/-- `StartTransaction` up to the new id. -/
def Sessions.start (b : Sessions) (i : Nat) : Sessions :=
  Sessions.setEnv { b with server := b.server.assign i } i
    { b.env i with transaction := none, holder := freeXactSnapshot, estates := [] }

/-- The id is shown in the `THREAD`. -/
def Sessions.publish (b : Sessions) (i : Nat) (x : TransactionId) : Sessions :=
  Sessions.setEnv
    { b with
      server := b.server.setThread i (threadTransactionStart (b.server.thread i) x) (.running x) }
    i { b.env i with transaction := some (i, x) }

/-- The connection `me` is at work for the transaction `x` of `owner`. -/
structure WorksFor (b : Sessions) (me owner : Nat) (x : TransactionId) : Prop where
  transaction : (b.env me).transaction = some (owner, x)
  running : b.server.phase owner = .running x
  slot : me < b.server.maxBackends
  own : me = owner ∨ b.server.phase me = .idle

inductive SessionStep : Sessions → SessionEvent → Sessions → Prop where
  | start (b : Sessions) (i : Nat) (hs : Step b.server (.assign i) (b.server.assign i)) :
      SessionStep b (.start i) (b.start i)
  | publish (b : Sessions) (i : Nat) (x : TransactionId) (hp : b.server.phase i = .assigned x) :
      SessionStep b (.publish i) (b.publish i x)
  | goesOn (b : Sessions) (e : Event) (s' : Server) (he : e.isEnding)
      (hs : Step b.server e s') : SessionStep b (.goesOn e) { b with server := s' }
  | request (b : Sessions) (r : Request) (me owner : Nat) (x : TransactionId)
      (holder : SnapshotHolder) (s' : Server) (computed : Option (Bool × SnapshotData))
      (hme : WorksFor b me owner x)
      (hok : r.exec b.server me x (b.env me) = .ok (holder, s', computed)) :
      SessionStep b (.request r me owner computed)
        (Sessions.setEnv { b with server := s' } me { b.env me with holder := holder })
  | dropUserSnapshot (b : Sessions) (me : Nat) : SessionStep b (.dropUserSnapshot me)
        (b.setEnv me { b.env me with holder := dropUserSnapshot (b.env me).holder })
  | setIsoLevel (b : Sessions) (me : Nat) (level : XactIsoLevel) :
      SessionStep b (.setIsoLevel me level) (b.setEnv me { b.env me with isoLevel := level })
  | executorStart (b : Sessions) (me : Nat) :
      SessionStep b (.executorStart me) (b.setEnv me (executorStart (b.env me)))
  | executorEnd (b : Sessions) (me : Nat) (left : List SnapshotData) (hleft : left ⊆ (b.env me).estates) :
      SessionStep b (.executorEnd me left) (b.setEnv me { b.env me with estates := left })
  | clone (b : Sessions) (me owner : Nat) (x : TransactionId) (hidle : b.server.phase me = .idle)
      (hparent : WorksFor b owner owner x) :
      SessionStep b (.clone me owner) (b.setEnv me (cloneParentTransaction (b.env owner) (b.env me)))

/-- What a request does: it reuses, computes the serializable snapshot, or computes a further one. -/
inductive Answered (s : Server) (me : Nat) (x : TransactionId) (r : Request) (env : Env) :
    HolderResult → Prop where
  | chosen (holder : SnapshotHolder) (hser : holder.serializableSnapshot = env.holder.serializableSnapshot)
      (hsub : ({ env with holder := holder } : Env).snapshots ⊆ env.snapshots) :
      Answered s me x r env (holder, s, none)
  | first (holder : SnapshotHolder) (taken : SnapshotData) (s' : Server)
      (hr : r = .query) (hnone : env.holder.serializableSnapshot = none)
      (hser : holder.serializableSnapshot = some taken)
      (hsub : ({ env with holder := holder } : Env).snapshots ⊆ taken :: env.snapshots)
      (hok : getSnapshotData s me x true = .ok (taken, s')) :
      Answered s me x r env (holder, s', some (true, taken))
  | further (holder : SnapshotHolder) (taken : SnapshotData) (s' : Server)
      (hr : r = .query → env.holder.serializableSnapshot ≠ none)
      (hser : holder.serializableSnapshot = env.holder.serializableSnapshot)
      (hsub : ({ env with holder := holder } : Env).snapshots ⊆ taken :: env.snapshots)
      (hok : getSnapshotData s me x false = .ok (taken, s')) :
      Answered s me x r env (holder, s', some (false, taken))

section

variable (s : Server) (me : Nat) (x : TransactionId) (env : Env) (result : HolderResult)

theorem chosen_snapshots (chosen : SnapshotData) (h : chosen ∈ env.snapshots) :
    ({ env with holder := { env.holder with querySnapshot := some (.computed chosen) } } :
      Env).snapshots ⊆ env.snapshots := by
  intro taken ht
  rw [mem_snapshots] at ht
  obtain hu | hs | hq | he := ht
  · exact (mem_snapshots env taken).mpr (.inl hu)
  · exact (mem_snapshots env taken).mpr (.inr (.inl hs))
  · obtain rfl := QuerySnapshot.computed.inj (Option.some.inj hq)
    exact h
  · exact (mem_snapshots env taken).mpr (.inr (.inr (.inr he)))

theorem computed_snapshots (taken : SnapshotData) (user serializable : Option SnapshotData)
    (huser : ∀ other, user = some other → other = taken ∨ env.holder.userSnapshot = some other)
    (hser : ∀ other, serializable = some other → other = taken ∨ env.holder.serializableSnapshot = some other) :
    ({ env with holder := ⟨user, some (.computed taken), serializable⟩ } : Env).snapshots ⊆ taken :: env.snapshots := by
  intro other ho
  rw [mem_snapshots] at ho
  rw [mem_cons, mem_snapshots]
  obtain hu | hs | hq | he := ho
  · exact (huser other hu).imp_right .inl
  · exact (hser other hs).imp_right fun h => .inr (.inl h)
  · exact .inl (QuerySnapshot.computed.inj (Option.some.inj hq)).symm
  · exact .inr (.inr (.inr (.inr he)))

theorem readCommitted_answered (hser : env.holder.serializableSnapshot ≠ none)
    (hok : (match getSnapshotData s me x false with
      | .error e => .error e
      | .ok (taken, s') =>
        .ok ({ env.holder with querySnapshot := some (.computed taken) }, s', some (false, taken)) :
        Except String HolderResult) = .ok result) :
    Answered s me x .query env result := by
  cases hget : getSnapshotData s me x false with
  | error e =>
    rw [hget] at hok
    cases hok
  | ok p =>
    obtain ⟨taken, s'⟩ := p
    rw [hget] at hok
    cases hok
    exact .further _ taken s' (fun _ => hser) rfl (computed_snapshots env taken _ _ (fun _ => .inr) fun _ => .inr) hget

theorem setQuerySnapshot_answered (hok : setQuerySnapshot s me x env.isoLevel env.holder = .ok result) :
    Answered s me x .query env result := by
  unfold setQuerySnapshot at hok
  split at hok
  · rename_i hser
    split at hok
    · cases hok
    · rename_i taken s' hget
      cases hok
      refine .first _ taken s' rfl hser rfl (computed_snapshots env taken _ _ ?_ ?_) hget
      · intro other hno
        cases hno
      · intro other hsome
        exact .inl (Option.some.inj hsome).symm
  · rename_i serializable hser
    have hmem : serializable ∈ env.snapshots := (mem_snapshots env _).mpr (.inr (.inl hser))
    have hread := readCommitted_answered s me x env result (by rw [hser]; exact Option.some_ne_none _)
    dsimp only at hok
    split at hok
    · cases hok
      exact .chosen _ rfl (chosen_snapshots env serializable hmem)
    · cases hok
      refine .chosen _ rfl ?_
      intro other ho
      rw [mem_snapshots] at ho ⊢
      obtain hu | hs | hq | he := ho
      · exact .inl hu
      · exact .inr (.inl hs)
      · cases hq
      · exact .inr (.inr (.inr he))
    · split at hok
      · rename_i user huser
        cases hok
        exact .chosen _ rfl (chosen_snapshots env user ((mem_snapshots env _).mpr (.inl huser)))
      · exact hread hok
    · exact hread hok

theorem takeUserSnapshot_answered (hok : takeUserSnapshot s me x env.holder = .ok result) :
    Answered s me x .user env result := by
  unfold takeUserSnapshot at hok
  split at hok
  · cases hok
  · cases hget : getSnapshotData s me x false with
    | error e =>
      rw [hget] at hok
      cases hok
    | ok p =>
      obtain ⟨taken, s'⟩ := p
      rw [hget] at hok
      cases hok
      refine .further _ taken s' ?_ rfl (computed_snapshots env taken _ _ ?_ fun _ => .inr) hget
      · intro hr
        cases hr
      · intro other hsome
        exact .inl (Option.some.inj hsome).symm

theorem exec_answered (r : Request) (hok : r.exec s me x env = .ok result) : Answered s me x r env result := by
  cases r with
  | query => exact setQuerySnapshot_answered s me x env result hok
  | user => exact takeUserSnapshot_answered s me x env result hok

end

theorem dropUserSnapshot_snapshots (env : Env) :
    ({ env with holder := dropUserSnapshot env.holder } : Env).snapshots ⊆ env.snapshots := by
  intro taken ht
  rw [mem_snapshots] at ht ⊢
  obtain hu | ht := ht
  · cases hu
  · exact .inr ht

theorem executorStart_snapshots (env : Env) : (executorStart env).snapshots ⊆ env.snapshots := by
  intro taken ht
  simp only [Env.snapshots, executorStart, mem_append] at ht ⊢
  obtain ht | ht | ht | ht := ht
  · exact .inl ht
  · exact .inr (.inl ht)
  · exact .inr (.inl ht)
  · exact .inr (.inr ht)

theorem executorEnd_snapshots {env : Env} {left : List SnapshotData} (h : left ⊆ env.estates) :
    ({ env with estates := left } : Env).snapshots ⊆ env.snapshots := by
  intro taken ht
  simp only [Env.snapshots, mem_append] at ht ⊢
  obtain ht | ht | ht := ht
  · exact .inl ht
  · exact .inr (.inl ht)
  · exact .inr (.inr (h ht))

theorem clone_snapshots (parent child : Env) : (cloneParentTransaction parent child).snapshots ⊆ parent.snapshots := by
  intro taken ht
  rw [mem_snapshots] at ht ⊢
  obtain hu | hs | hq | he := ht
  · exact .inl hu
  · exact .inr (.inl hs)
  · exact .inr (.inr (.inl hq))
  · cases he

variable {b b' : Sessions} {l : SessionEvent}

theorem onServer_step (hs : SessionStep b l b') : (l.onServer = [] ∧ b'.server = b.server) ∨
      ∃ e, l.onServer = [e] ∧ Step b.server e b'.server := by
  cases hs with
  | start i hs => exact .inr ⟨_, rfl, hs⟩
  | publish i x hp => exact .inr ⟨_, rfl, .publish b.server i x hp⟩
  | goesOn e s' he hs => exact .inr ⟨_, rfl, hs⟩
  | request r me owner x holder s' computed hme hok =>
    cases exec_answered _ _ _ _ _ r hok with
    | chosen => exact .inl ⟨rfl, rfl⟩
    | first _ taken _ _ _ _ _ hget =>
      exact .inr ⟨_, rfl, .snapshot _ _ me owner x true taken hme.running hme.own hget⟩
    | further _ taken _ _ _ _ hget =>
      exact .inr ⟨_, rfl, .snapshot _ _ me owner x false taken hme.running hme.own hget⟩
  | dropUserSnapshot me => exact .inl ⟨rfl, rfl⟩
  | setIsoLevel me level => exact .inl ⟨rfl, rfl⟩
  | executorStart me => exact .inl ⟨rfl, rfl⟩
  | executorEnd me left hleft => exact .inl ⟨rfl, rfl⟩
  | clone me owner x hidle hparent => exact .inl ⟨rfl, rfl⟩

theorem onServer_run {Ok : Server → Event → Prop} (hs : SessionStep b l b') (hok : ∀ e ∈ l.onServer, Ok b.server e) :
    Run (Guarded Step Ok) b.server l.onServer b'.server := by
  obtain ⟨hnone, hsame⟩ | ⟨e, hone, hstep⟩ := onServer_step hs
  · rw [hnone, hsame]
    exact .nil _
  · rw [hone]
    exact .single ⟨hok e (by rw [hone]; exact mem_singleton_self e), hstep⟩

end WeaverDB.Snapshot
