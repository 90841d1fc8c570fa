/-
  File:      LedgerAccounting/Service/Grpc.lean
  Subject:   The gRPC service (`grpc.rs`) over the in-memory store, its messages
             (`proto/ledger.proto`), and the callers it admits (`run_grpc` of `main.rs`).

  Only `create_account` and `post_posting` ask for the caller; the value of `x-caller` is the
  caller's own word.

  * `splitCallers_lists`: the callers of a text are the names it lists.
  * `authorize_ok_iff`: whom the service admits.
-/
import LedgerAccounting.Http.Handlers
import LedgerAccounting.Service.Config

namespace LedgerAccounting

/-! ## 1. The callers -/

/-- `char::is_whitespace`. -/
def isWhitespace (c : Char) : Bool :=
  let n := c.toNat
  (9 ≤ n && n ≤ 13) || n == 0x20 || n == 0x85 || n == 0xA0 || n == 0x1680 ||
    (0x2000 ≤ n && n ≤ 0x200A) || n == 0x2028 || n == 0x2029 || n == 0x202F || n == 0x205F ||
    n == 0x3000

def trimChars (l : List Char) : List Char :=
  ((l.dropWhile isWhitespace).reverse.dropWhile isWhitespace).reverse

/-- `str::trim`. -/
def trim (s : String) : String := String.ofList (trimChars s.toList)

/-- `split(',')`, each part trimmed. -/
def splitCallers (s : String) : List String :=
  (s.toList.splitOn ',').map fun part => String.ofList (trimChars part)

/-- The callers `run_grpc` reads from the environment. -/
def allowedCallers (env : Env) : List String :=
  splitCallers ((env "ALLOWED_CALLERS").getD "transaction-orchestrator,treasury-orchestration")

/-- The callers of a joined list are its trimmed elements. -/
theorem splitCallers_join {parts : List String} (hne : parts ≠ [])
    (hfree : ∀ p ∈ parts, ',' ∉ p.toList) :
    splitCallers (",".intercalate parts) = parts.map trim := by
  unfold splitCallers
  rw [String.toList_intercalate, show ",".toList = [','] from rfl,
    List.splitOn_intercalate ',' ?_ (by simpa using hne), List.map_map]
  · rfl
  · intro l hl
    obtain ⟨p, hp, rfl⟩ := List.mem_map.mp hl
    exact hfree p hp

/-- A text without white space at its ends. -/
structure Trimmed (s : String) : Prop where
  first : ∀ c ∈ s.toList.head?, isWhitespace c = false
  last : ∀ c ∈ s.toList.getLast?, isWhitespace c = false

theorem dropWhile_head {l : List Char} (h : ∀ c ∈ l.head?, isWhitespace c = false) :
    l.dropWhile isWhitespace = l := by
  cases l with
  | nil => rfl
  | cons c l => exact List.dropWhile_cons_of_neg (by simp [h c rfl])

/-- White space around a trimmed text is cut off. -/
theorem trim_padded {before after : List Char} {s : String}
    (hbefore : ∀ c ∈ before, isWhitespace c = true) (hafter : ∀ c ∈ after, isWhitespace c = true)
    (hs : Trimmed s) : trim (String.ofList (before ++ s.toList ++ after)) = s := by
  have hfront : (before ++ s.toList ++ after).dropWhile isWhitespace =
      s.toList ++ after.dropWhile fun c => s.toList.isEmpty && isWhitespace c := by
    rw [List.append_assoc, List.dropWhile_append_of_pos hbefore]
    cases hl : s.toList with
    | nil => simp
    | cons c l =>
      have hc := hs.first c (by rw [hl]; rfl)
      rw [List.cons_append, List.dropWhile_cons_of_neg (by simp [hc])]
      cases after with
      | nil => rfl
      | cons d after => rfl
  have hrest : ∀ c ∈ (after.dropWhile fun c => s.toList.isEmpty && isWhitespace c).reverse,
      isWhitespace c = true := fun c hc =>
    hafter c (List.dropWhile_subset _ (List.mem_reverse.mp hc))
  unfold trim trimChars
  rw [String.toList_ofList, hfront, List.reverse_append, List.dropWhile_append_of_pos hrest,
    dropWhile_head (by rw [List.head?_reverse]; exact hs.last), List.reverse_reverse,
    String.ofList_toList]

/-- The part is the name with white space around it, and nothing splits or trims the name. -/
structure Padded (name part : String) : Prop where
  trimmed : Trimmed name
  whole : ',' ∉ name.toList
  around : ∃ before after, (∀ c ∈ before, isWhitespace c = true) ∧
    (∀ c ∈ after, isWhitespace c = true) ∧ part = String.ofList (before ++ name.toList ++ after)

/-- The text lists the names, separated by commas, each with any white space around it. -/
def Lists (text : String) (names : List String) : Prop :=
  ∃ parts, text = ",".intercalate parts ∧ List.Forall₂ Padded names parts

theorem Padded.trim {name part : String} (h : Padded name part) : trim part = name := by
  obtain ⟨before, after, hb, ha, rfl⟩ := h.around
  exact trim_padded hb ha h.trimmed

theorem Padded.free {name part : String} (h : Padded name part) : ',' ∉ part.toList := by
  obtain ⟨before, after, hb, ha, rfl⟩ := h.around
  rw [String.toList_ofList]
  intro hc
  rcases List.mem_append.mp hc with hc | hc
  · rcases List.mem_append.mp hc with hc | hc
    · exact absurd (hb _ hc) (by decide)
    · exact h.whole hc
  · exact absurd (ha _ hc) (by decide)

/-- **The callers of a text are the names it lists.** -/
theorem splitCallers_lists {text : String} {names : List String} (hne : names ≠ [])
    (h : Lists text names) : splitCallers text = names := by
  obtain ⟨parts, rfl, hparts⟩ := h
  have htrim : parts.map LedgerAccounting.trim = names := by
    clear hne
    induction hparts with
    | nil => rfl
    | cons hp _ ih => rw [List.map_cons, hp.trim, ih]
  have hfree : ∀ p ∈ parts, ',' ∉ p.toList := fun p hp => by
    obtain ⟨name, _, hpad⟩ := Runs.forall₂_mem_right hparts hp
    exact hpad.free
  have hsome : parts ≠ [] := by
    rintro rfl
    exact hne htrim.symm
  rw [splitCallers_join hsome hfree, htrim]

/-! ## 2. The messages -/

structure PbCreateAccountRequest where
  accountId : Option String
  type : String
  assetClass : String
  label : String
  parentId : Option String
  deriving DecidableEq, Repr

structure PbEntryInput where
  accountId : String
  direction : String
  amount : Nat
  asset : String
  deriving DecidableEq, Repr

structure PbPostingRequest where
  postingId : String
  entries : List PbEntryInput
  memo : Option String
  refTxId : Option String
  deriving DecidableEq, Repr

structure PbEntryRecord where
  entryId : String
  postingId : String
  accountId : String
  direction : String
  amount : Nat
  asset : String
  sequenceNumber : Nat
  prevHash : String
  thisHash : String
  createdAt : String
  deriving DecidableEq, Repr

structure PbPostingRecord where
  postingId : String
  refTxId : Option String
  memo : Option String
  status : String
  hashHead : String
  entries : List PbEntryRecord
  createdAt : String
  deriving DecidableEq, Repr

structure PbPostingResponse where
  postingId : String
  status : String
  entryIds : List String
  hashHead : String
  deriving DecidableEq, Repr

def PbCreateAccountRequest.request (req : PbCreateAccountRequest) : CreateAccountRequest where
  accountId := req.accountId
  typeName := req.type
  assetClass := req.assetClass
  label := req.label
  parentId := req.parentId

def PbPostingRequest.request (req : PbPostingRequest) : PostingRequest where
  postingId := req.postingId
  entries := req.entries.map fun e => ⟨e.accountId, e.direction, e.amount, e.asset⟩
  memo := req.memo
  refTxId := req.refTxId

/-- `posting_to_pb`. -/
def postingToPb (p : PostingRecord) : PbPostingRecord where
  postingId := p.postingId
  refTxId := p.refTxId
  memo := p.memo
  status := p.status
  hashHead := p.hashHead
  entries := p.entries.map fun e =>
    { entryId := e.entryId
      postingId := e.postingId
      accountId := e.accountId
      direction := e.direction
      amount := e.amount
      asset := e.asset
      sequenceNumber := e.sequenceNumber
      prevHash := e.prevHash
      thisHash := e.thisHash
      createdAt := e.createdAt }
  createdAt := p.createdAt

/-- **No two records are sent as one message.** -/
theorem postingToPb_injective : Function.Injective postingToPb := by
  intro p q h
  have hentry : Function.Injective fun e : EntryRecord =>
      (⟨e.entryId, e.postingId, e.accountId, e.direction, e.amount, e.asset, e.sequenceNumber,
        e.prevHash, e.thisHash, e.createdAt⟩ : PbEntryRecord) := by
    intro a b hab
    cases a
    cases b
    simpa using hab
  simp only [postingToPb, PbPostingRecord.mk.injEq] at h
  obtain ⟨h1, h2, h3, h4, h5, h6, h7⟩ := h
  have hentries := List.map_injective_iff.mpr hentry h6
  cases p
  cases q
  rw [PostingRecord.mk.injEq]
  exact ⟨h1, h2, h3, h4, h5, hentries, h7⟩

inductive Code where
  | unauthenticated
  | invalidArgument
  | notFound
  deriving DecidableEq, Repr

/-- `tonic::Status`. -/
structure Status where
  code : Code
  message : String
  deriving DecidableEq, Repr

/-- The messages the service answers with. -/
inductive GrpcReply where
  | account (accountId : String)
  | posting (response : PbPostingResponse)
  | record (record : PbPostingRecord)
  | balance (accountId asset balance asOfTs : String)
  | chain (ok : Bool) (entryId reason : Option String)
  deriving DecidableEq, Repr

/-! ## 3. The service -/

structure LedgerGrpc where
  allowedCallers : List String

def LedgerGrpc.authorize (g : LedgerGrpc) (caller : Option String) : Except Status Unit :=
  match caller with
  | some c =>
    if g.allowedCallers.any (· == c) then .ok ()
    else .error ⟨.unauthenticated, "caller is not an authorized orchestrator"⟩
  | none => .error ⟨.unauthenticated, "caller is not an authorized orchestrator"⟩

/-- `run_grpc`: the service for the callers of the environment. -/
def runGrpc (env : Env) : LedgerGrpc := ⟨allowedCallers env⟩

theorem authorize_ok_iff (g : LedgerGrpc) (caller : Option String) :
    g.authorize caller = .ok () ↔ ∃ c ∈ g.allowedCallers, caller = some c := by
  unfold LedgerGrpc.authorize
  cases caller with
  | none => simp
  | some c =>
    dsimp only
    split
    · rename_i h
      obtain ⟨a, ha, hac⟩ := List.any_eq_true.mp h
      exact ⟨fun _ => ⟨a, ha, congrArg some (beq_iff_eq.mp hac).symm⟩, fun _ => rfl⟩
    · rename_i h
      refine ⟨nofun, ?_⟩
      rintro ⟨a, ha, hac⟩
      have hany : g.allowedCallers.any (· == c) = true :=
        List.any_eq_true.mpr ⟨a, ha, beq_iff_eq.mpr (Option.some.inj hac).symm⟩
      exact absurd hany h

/-- A request of the service, with the text of its `x-caller` where it is looked at. -/
inductive GrpcRequest where
  | createAccount (caller : Option String) (req : PbCreateAccountRequest)
  | postPosting (caller : Option String) (req : PbPostingRequest)
  | getPosting (postingId : String)
  | getBalance (accountId : String) (asset : Option String)
  | verifyChain
  deriving DecidableEq, Repr

namespace LedgerGrpc

variable (g : LedgerGrpc) (digest : ByteArray → String) (salt : String) (sup : Supply)

def createAccount (caller : Option String) (req : PbCreateAccountRequest) (state : LedgerState) :
    Except Status GrpcReply × LedgerState :=
  match g.authorize caller with
  | .error e => (.error e, state)
  | .ok () =>
    match LedgerAccounting.createAccount sup req.request state with
    | (.ok acc, state') => (.ok (.account acc.accountId), state')
    | (.error e, state') => (.error ⟨.invalidArgument, e⟩, state')

def postPosting (caller : Option String) (req : PbPostingRequest) (state : LedgerState) :
    Except Status GrpcReply × LedgerState :=
  match g.authorize caller with
  | .error e => (.error e, state)
  | .ok () =>
    match post digest salt sup req.request state with
    | (.ok (resp, _), state') =>
      (.ok (.posting ⟨resp.postingId, resp.status, resp.entryIds, resp.hashHead⟩), state')
    | (.error e, state') => (.error ⟨.invalidArgument, e.message⟩, state')

def getPosting (postingId : String) (state : LedgerState) : Except Status GrpcReply :=
  match LedgerAccounting.getPosting state postingId with
  | some p => .ok (.record (postingToPb p))
  | none => .error ⟨.notFound, s!"posting not found: {postingId}"⟩

def getBalance (accountId : String) (asset : Option String) (state : LedgerState) :
    Except Status GrpcReply :=
  let asset := asset.getD ""
  match balance state accountId asset with
  | some bal => .ok (.balance accountId (assetLabel asset) (toString bal) (sup.nowIso 0))
  | none => .error ⟨.notFound, s!"account not found: {accountId}"⟩

def verifyChain (state : LedgerState) : Except Status GrpcReply :=
  match LedgerAccounting.verifyChain digest salt state with
  | .ok () => .ok (.chain true none none)
  | .error b => .ok (.chain false (some b.entryId) (some b.reason))

def handle (req : GrpcRequest) (state : LedgerState) : Except Status GrpcReply × LedgerState :=
  match req with
  | .createAccount caller req => g.createAccount sup caller req state
  | .postPosting caller req => g.postPosting digest salt sup caller req state
  | .getPosting postingId => (getPosting postingId state, state)
  | .getBalance accountId asset => (getBalance sup accountId asset state, state)
  | .verifyChain => (verifyChain digest salt state, state)

end LedgerGrpc

end LedgerAccounting
