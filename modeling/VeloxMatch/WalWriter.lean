import VeloxMatch.WalReader

namespace VeloxMatch

/-- The settings of a log; `pattern` tells if a `filename_pattern` is set. -/
structure OmWalConfig where
  pattern : Bool
  fileIndex : Nat
  bufferSize : Nat
  enableCrc32 : Bool
  disableCrc32 : Bool
  userDataSize : Nat
  auxDataSize : Nat
  walMaxFileSize : Nat
  deriving DecidableEq, Repr

/-- The file `filename`, or the one that the pattern names for an index. -/
inductive WalPath where
  | single
  | indexed (i : Nat)
  deriving DecidableEq, Repr

variable (config : OmWalConfig)

def OmWalConfig.path (i : Nat) : WalPath :=
  if config.pattern then .indexed i else .single

/-- What becomes of a file operation: a short write leaves some of its bytes. -/
inductive OpOutcome where
  | complete
  | short (n : Nat)
  | failed
  deriving DecidableEq, Repr

/-- The files, how much of each is known to be on the device, and the operations so far. -/
structure WalDisk where
  files : WalPath → Option (List UInt8)
  synced : WalPath → Nat
  ops : Nat

namespace WalDisk

variable (env : Nat → OpOutcome) (d : WalDisk) (path : WalPath)

def content : List UInt8 := (d.files path).getD []

/-- `open` with `O_CREAT` and `O_APPEND`. -/
def openFile : Bool × WalDisk :=
  match env d.ops with
  | .complete =>
    (true,
      { d with
        files := Function.update d.files path (some (d.content path))
        ops := d.ops + 1 })
  | _ => (false, { d with ops := d.ops + 1 })

/-- `write` at the end of the open file; the result tells if all bytes were written. -/
def write (fd : Option WalPath) (bytes : List UInt8) : Bool × WalDisk :=
  match fd with
  | none => (false, { d with ops := d.ops + 1 })
  | some path =>
    let (ok, n) :=
      match env d.ops with
      | .complete => (true, bytes.length)
      | .short n => (false, min n (bytes.length - 1))
      | .failed => (false, 0)
    (ok,
      { d with
        files := Function.update d.files path (some (d.content path ++ bytes.take n))
        ops := d.ops + 1 })

def fsync (fd : Option WalPath) : Bool × WalDisk :=
  match fd, env d.ops with
  | some path, .complete =>
    (true,
      { d with
        synced := Function.update d.synced path (d.content path).length
        ops := d.ops + 1 })
  | _, _ => (false, { d with ops := d.ops + 1 })

end WalDisk

/-- An open log. `buffer` holds the used bytes of the buffer, `fd` the file that is open. -/
structure OmWal where
  config : OmWalConfig
  fd : Option WalPath
  lastError : Option OmError
  buffer : List UInt8
  bufferSize : Nat
  sequence : Nat
  fileOffset : Nat
  fileIndex : Nat
  slabSet : Bool
  disk : WalDisk

def alignUp (size align : Nat) : Nat := (size + align - 1) / align * align

def walPadding (n : Nat) : List UInt8 := List.replicate (alignUp n walAlign - n) 0

def walPadded (bytes : List UInt8) : List UInt8 := bytes ++ walPadding bytes.length

/-- What a caller appends: an order with its aux bytes, the other records, and own ones. -/
inductive WalRequest where
  | insert (order : OmOrderFields) (aux : List UInt8) (productId timestampNs : Nat)
  | cancel (rec : OmWalCancel)
  | deactivate (rec : OmWalCancel)
  | activate (rec : OmWalCancel)
  | matched (rec : OmWalMatch)
  | custom (type : Nat) (data : List UInt8)
  deriving DecidableEq, Repr

namespace OmWal

variable (env : Nat → OpOutcome) (w : OmWal)

def rotate (size : Nat) : Option OmError × OmWal :=
  if w.config.pattern ∧ 0 < w.config.walMaxFileSize ∧
      w.config.walMaxFileSize < w.fileOffset + size then
    match w.disk.fsync env w.fd with
    | (false, disk) => (some .walFsync, { w with lastError := some .walFsync, disk := disk })
    | (true, disk) =>
      let path := w.config.path (w.fileIndex + 1)
      match disk.openFile env path with
      | (false, disk) =>
        (some .walOpen,
          { w with
            fd := none
            lastError := some .walOpen
            fileIndex := w.fileIndex + 1
            disk := disk })
      | (true, disk) =>
        (none,
          { w with
            fd := some path
            fileIndex := w.fileIndex + 1
            fileOffset := 0
            disk := disk })
  else (none, w)

/-- `om_wal_flush`; `none` is its result 0. -/
def omWalFlush : Option OmError × OmWal :=
  match w.lastError with
  | some err => (some err, w)
  | none =>
    if w.buffer = [] then (none, w)
    else
      let bytes := walPadded w.buffer
      match w.rotate env bytes.length with
      | (some err, w) => (some err, w)
      | (none, w) =>
        match w.disk.write env w.fd bytes with
        | (false, disk) => (some .walWrite, { w with lastError := some .walWrite, disk := disk })
        | (true, disk) =>
          (none, { w with buffer := [], fileOffset := w.fileOffset + bytes.length, disk := disk })

def omWalFsync : Option OmError × OmWal :=
  match w.lastError with
  | some err => (some err, w)
  | none =>
    match w.omWalFlush env with
    | (some _, w) => (some .walFlush, w)
    | (none, w) =>
      match w.disk.fsync env w.fd with
      | (false, disk) => (some .walFsync, { w with lastError := some .walFsync, disk := disk })
      | (true, disk) => (none, { w with disk := disk })

/-- `om_wal_close`: the result of the flush and of the last fsync is not looked at. -/
def omWalClose : WalDisk :=
  let w := (w.omWalFlush env).2
  if w.fd.isSome then (w.disk.fsync env w.fd).2 else w.disk

/-- A record that no buffer of this log can hold, or the numbers are used up. -/
def Refuses (len : Nat) : Prop :=
  65535 < len ∨ w.bufferSize < walHeaderSize + len + walCrcSize w.config.enableCrc32 ∨
    2 ^ 40 ≤ w.sequence

instance (len : Nat) : Decidable (w.Refuses len) := inferInstanceAs (Decidable (_ ∨ _ ∨ _))

/-- `wal_append`: the number of the record, or 0. -/
def walAppend (type : Nat) (data : List UInt8) : Nat × OmWal :=
  match w.lastError with
  | some _ => (0, w)
  | none =>
    if w.Refuses data.length then (0, { w with lastError := some .walWrite })
    else
      let total := walHeaderSize + data.length + walCrcSize w.config.enableCrc32
      match if w.bufferSize < w.buffer.length + total then w.omWalFlush env else (none, w) with
      | (some _, w) => (0, w)
      | (none, w) =>
        (w.sequence,
          { w with
            sequence := w.sequence + 1
            buffer := w.buffer ++ walFrame w.config.enableCrc32 w.sequence type data })

/-- The INSERT record of an order; without a slab the aux bytes are zero. -/
def insertOf (order : OmOrderFields) (aux : List UInt8) (productId timestampNs : Nat) :
    OmWalInsert where
  orderId := order.orderId
  price := order.price
  volume := order.volume
  volRemain := order.volumeRemain
  org := order.org
  flags := order.flags
  productId := productId
  userDataSize := w.config.userDataSize % 2 ^ 32
  auxDataSize := w.config.auxDataSize % 2 ^ 32
  timestampNs := timestampNs
  userData := order.data.takeD w.config.userDataSize 0
  auxData := (if w.slabSet then aux else []).takeD w.config.auxDataSize 0

def typeOf : WalRequest → Nat
  | .insert .. => walTypeInsert
  | .cancel _ => walTypeCancel
  | .deactivate _ => walTypeDeactivate
  | .activate _ => walTypeActivate
  | .matched _ => walTypeMatch
  | .custom type _ => type

def payloadOf : WalRequest → List UInt8
  | .insert order aux productId timestampNs =>
    insertPayload (w.insertOf order aux productId timestampNs)
  | .cancel rec | .deactivate rec | .activate rec => cancelPayload rec
  | .matched rec => matchPayload rec
  | .custom _ data => data

/-- `om_wal_insert`: the body of `wal_append` with the payload made in place. -/
def omWalInsert (order : OmOrderFields) (aux : List UInt8) (productId timestampNs : Nat) :
    Nat × OmWal :=
  w.walAppend env walTypeInsert (w.payloadOf (.insert order aux productId timestampNs))

def omWalCancel (rec : OmWalCancel) : Nat × OmWal :=
  w.walAppend env walTypeCancel (cancelPayload rec)

def omWalDeactivate (rec : OmWalCancel) : Nat × OmWal :=
  w.walAppend env walTypeDeactivate (cancelPayload rec)

def omWalActivate (rec : OmWalCancel) : Nat × OmWal :=
  w.walAppend env walTypeActivate (cancelPayload rec)

def omWalMatch (rec : OmWalMatch) : Nat × OmWal :=
  w.walAppend env walTypeMatch (matchPayload rec)

def omWalAppendCustom (type : Nat) (data : List UInt8) : Nat × OmWal :=
  if type < walUserBase then (0, w) else w.walAppend env type data

def request : WalRequest → Nat × OmWal
  | .insert order aux productId timestampNs => w.omWalInsert env order aux productId timestampNs
  | .cancel rec => w.omWalCancel env rec
  | .deactivate rec => w.omWalDeactivate env rec
  | .activate rec => w.omWalActivate env rec
  | .matched rec => w.omWalMatch env rec
  | .custom type data => w.omWalAppendCustom env type data

end OmWal

def configReplay (disk : WalDisk) (file : List UInt8) : OmWalReplay :=
  { omWalReplayInit file (!config.disableCrc32) with
    fileIndex := if config.pattern then config.fileIndex else 0
    files := if config.pattern then some fun i => disk.files (.indexed i) else none }

def omWalReplayInitWithConfig (disk : WalDisk) : Except OmError OmWalReplay :=
  match disk.files (config.path config.fileIndex) with
  | none => .error .walOpen
  | some file => .ok (configReplay config disk file)

/-- The loop of `wal_scan_for_last_sequence`: the last number and its file. -/
def walScan (turns : Nat) : Nat → OmWalReplay → Nat → Nat → Option (Except OmError (Nat × Nat))
  | 0, _, _, _ => none
  | calls + 1, r, lastSeq, lastFile =>
    match omWalReplayNext (fun _ n => n) noHandler turns r with
    | none => none
    | some (.record rec, r) => walScan turns calls r rec.seq r.fileIndex
    | some (.eof, _) => some (.ok (lastSeq, lastFile))
    | some (.error err, _) => some (.error err)

def walScanForLastSequence (turns calls : Nat) (config : OmWalConfig) (disk : WalDisk) :
    Option (Except OmError (Nat × Nat)) :=
  match omWalReplayInitWithConfig config disk with
  | .error err => some (.error err)
  | .ok r => walScan turns calls r 0 config.fileIndex

/-- The settings as `om_wal_init` completes them. -/
def OmWalConfig.completed : OmWalConfig :=
  { config with
    enableCrc32 := config.enableCrc32 || !config.disableCrc32
    bufferSize := alignUp (if config.bufferSize = 0 then 1024 * 1024 else config.bufferSize)
      walAlign }

/-- `om_wal_init`, with bounds on the loops of the scan; `none` if they do not suffice. -/
def omWalInit (env : Nat → OpOutcome) (turns calls : Nat) (config : OmWalConfig)
    (disk : WalDisk) : Option (Except OmError OmWal) :=
  let config := config.completed
  match disk.openFile env (config.path config.fileIndex) with
  | (false, _) => some (.error .walOpen)
  | (true, disk) =>
    let scan :=
      if (disk.content (config.path config.fileIndex)) ≠ [] ∨ config.pattern then
        walScanForLastSequence turns calls config disk
      else some (.ok (0, config.fileIndex))
    match scan with
    | none => none
    | some (.error err) => some (.error err)
    | some (.ok (lastSeq, lastFile)) =>
      -- The last file can only be opened again through the pattern.
      if lastFile ≠ config.fileIndex ∧ !config.pattern then some (.error .nullParam)
      else
        let opened :=
          if lastFile ≠ config.fileIndex then disk.openFile env (config.path lastFile)
          else (true, disk)
        match opened with
        | (false, _) => some (.error .walOpen)
        | (true, disk) =>
          some (.ok
            { config := config
              fd := some (config.path lastFile)
              lastError := none
              buffer := []
              bufferSize := config.bufferSize
              sequence := lastSeq + 1
              fileOffset := (disk.content (config.path lastFile)).length
              fileIndex := lastFile
              slabSet := false
              disk := disk })

def omWalSetSlab (w : OmWal) (slabSet : Bool) : OmWal := { w with slabSet := slabSet }

end VeloxMatch
