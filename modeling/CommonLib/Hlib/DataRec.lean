import Mathlib.Algebra.Group.Int.Defs
import Mathlib.Algebra.Group.Nat.Defs
import Mathlib.Algebra.Ring.Int.Defs
import Mathlib.Data.Int.DivMod
import Mathlib.Logic.Function.Basic

/-!
# The data recorder of `hdatarec.cpp`

`THDataRec` aggregates samples in four rings, by second, minute, hour and day, and writes them to
files.  Dates are seconds since 1970 and are integers here; `/` and `%` on them truncate.  The
floating point modes are left to a parameter.
-/

namespace CommonLib

def H_SECONDS : Nat := 300
def H_MINUTES : Nat := 480
def H_HOURS : Nat := 720
def H_DAYS : Nat := 730
def H_MAX : Nat := 730
def H_BUFFERS : Nat := 256
def H_DAT_VOLUME : Nat := 1024 * 256

/-- A record: how many values it sums up, and the bits of the union `Data`. -/
structure THData where
  count : Int32
  data : UInt64
  deriving DecidableEq

/-- A record after `memset`. -/
def THData.zero : THData := ⟨0, 0⟩

inductive THCollectMode
  | cmAverage | cmReplace | cmMax | cmMin | cmTotal
  deriving DecidableEq

inductive THParticleSize
  | psDefault | psSecond | psMinute | psHour | psDay
  deriving DecidableEq

inductive THDataMode
  | dmByte | dmWord | dmCardinal | dmDouble | dmInt64 | dmFloat | dmInt
  deriving DecidableEq

/-! ## Integer members of the union -/

/-- An integer member of the union `Data`, which occupies its low bits. -/
structure DataField where
  bits : Nat
  signed : Bool

namespace DataField

def aByte : DataField := ⟨8, false⟩
def aWord : DataField := ⟨16, false⟩
def aDWord : DataField := ⟨32, false⟩
def aInt64 : DataField := ⟨64, false⟩
def aInt : DataField := ⟨32, true⟩

/-- The value of the member's type that is congruent to `value`. -/
def wrap (field : DataField) (value : Int) : Int :=
  if field.signed then value.bmod (2 ^ field.bits) else value % 2 ^ field.bits

def get (field : DataField) (data : UInt64) : Int := field.wrap data.toNat

/-- Assign to the member; the other bytes of the union stay. -/
def set (field : DataField) (data : UInt64) (value : Int) : UInt64 :=
  UInt64.ofNat
    (data.toNat / 2 ^ field.bits * 2 ^ field.bits + (value % 2 ^ field.bits).toNat)

end DataField

/-! ## Add methods -/

/-- Add the first record to the second. -/
abbrev THAddMethod := THData → THData → THData

/-- Combine a member of the two records and add up their counts. -/
def addWith (field : DataField) (combine : Int → Int → Int) : THAddMethod := fun src dst =>
  { count := dst.count + src.count
    data := field.set dst.data (combine (field.get src.data) (field.get dst.data)) }

def addBR : THAddMethod := addWith .aByte fun src _ => src
def addBM : THAddMethod := addWith .aByte max
def addBS : THAddMethod := addWith .aByte min
def addBT : THAddMethod := addWith .aByte fun src dst => dst + src
def addWR : THAddMethod := addWith .aWord fun src _ => src
def addWM : THAddMethod := addWith .aWord max
def addWS : THAddMethod := addWith .aWord min
def addWT : THAddMethod := addWith .aWord fun src dst => dst + src
def addCR : THAddMethod := addWith .aDWord fun src _ => src
def addCM : THAddMethod := addWith .aDWord max
def addCS : THAddMethod := addWith .aDWord min
def addCT : THAddMethod := addWith .aDWord fun src dst => dst + src
def addIR : THAddMethod := addWith .aInt64 fun src _ => src
def addIM : THAddMethod := addWith .aInt64 max
def addIS : THAddMethod := addWith .aInt64 min
def addIT : THAddMethod := addWith .aInt64 fun src dst => dst + src
/-- `AddiR`, on the member `AInt`. -/
def addiR : THAddMethod := addWith .aInt fun src _ => src
def addiM : THAddMethod := addWith .aInt max
def addiS : THAddMethod := addWith .aInt min
def addiT : THAddMethod := addWith .aInt fun src dst => dst + src

/-- The choice of `AddMethod` in the constructor; `floating` stands for the methods that compute
with floating point numbers. -/
def chooseAddMethod (floating : THDataMode → THCollectMode → THAddMethod) :
    THDataMode → THCollectMode → THAddMethod
  | .dmByte, .cmReplace => addBR
  | .dmByte, .cmMax => addBM
  | .dmByte, .cmMin => addBS
  | .dmByte, .cmTotal => addBT
  | .dmWord, .cmReplace => addWR
  | .dmWord, .cmMax => addWM
  | .dmWord, .cmMin => addWS
  | .dmWord, .cmTotal => addWT
  | .dmCardinal, .cmReplace => addCR
  | .dmCardinal, .cmMax => addCM
  | .dmCardinal, .cmMin => addCS
  | .dmCardinal, .cmTotal => addCT
  | .dmInt64, .cmReplace => addIR
  | .dmInt64, .cmMax => addIM
  | .dmInt64, .cmMin => addIS
  | .dmInt64, .cmTotal => addIT
  | .dmInt, .cmReplace => addiR
  | .dmInt, .cmMax => addiM
  | .dmInt, .cmMin => addiS
  | .dmInt, .cmTotal => addiT
  | dm, cm => floating dm cm

/-! ## Rings -/

/-- One of the four histories: the fields `xDate`, `xIndex`, `xCount`, `xDates` and `xData`. -/
structure THDataRing where
  date : Int
  index : Nat
  count : Nat
  dates : Nat → Int
  data : Nat → THData

namespace THDataRing

/-- A ring as the constructor leaves it; the dates are not initialised. -/
def new (dates : Nat → Int) : THDataRing :=
  { date := 0, index := 0, count := 0, dates, data := fun _ => .zero }

/-- What `Add` does at one level: merge the record into the newest one, if that is of the same time,
or begin a new one. -/
def add (capacity : Nat) (addMethod : THAddMethod) (same : Int → Int → Bool) (ring : THDataRing)
    (data : THData) (lastDate : Int) : THDataRing :=
  if same ring.date lastDate then
    { ring with
      data := Function.update ring.data ring.index (addMethod data (ring.data ring.index)) }
  else
    let index := if ring.date ≠ 0 then (ring.index + 1) % capacity else ring.index
    { date := lastDate
      index
      count := if ring.count < capacity then ring.count + 1 else ring.count
      dates := Function.update ring.dates index lastDate
      data := Function.update ring.data index data }

end THDataRing

/-! ## The recorder -/

/-- The class `THDataRec` without its name and data type; `bData` holds the first `BCount` entries
of `BDates` and `BData`. -/
structure THDataRec where
  fWriteToDisk : Bool
  dataMode : THDataMode
  particleSize : THParticleSize
  s : THDataRing
  m : THDataRing
  h : THDataRing
  d : THDataRing
  bData : List (Int × THData)
  wDate : Int
  lData : THData
  lDate : Int
  addMethod : THAddMethod

namespace THDataRec

/-- `psDefault` stands for the particle size of the recorder. -/
def resolve (recorder : THDataRec) (ps : THParticleSize) : THParticleSize :=
  if ps = .psDefault then recorder.particleSize else ps

/-- The number of seconds in a record of a size. -/
def unit : THParticleSize → Int
  | .psMinute => 60
  | .psHour => 3600
  | .psDay => 86400
  | _ => 1

/-- `THDataRec::Compare`. -/
def compare (recorder : THDataRec) (d1 d2 : Int) (ps : THParticleSize) : Bool :=
  match recorder.resolve ps with
  | .psMinute => d1.tdiv 60 == d2.tdiv 60
  | .psHour => d1.tdiv 3600 == d2.tdiv 3600
  | .psDay => d1.tdiv 86400 == d2.tdiv 86400
  | _ => d1 == d2

/-- `THDataRec::FormatTimeStamp`. -/
def formatTimeStamp (recorder : THDataRec) (ps : THParticleSize) (d : Int) : Int :=
  match recorder.resolve ps with
  | .psMinute => d - d.tmod 60
  | .psHour => d - d.tmod 3600
  | .psDay => d - d.tmod 86400
  | _ => d

/-- `THDataRec::IncTimestamp`. -/
def incTimestamp (recorder : THDataRec) (d : Int) (ps : THParticleSize) : Int :=
  match recorder.resolve ps with
  | .psMinute => d + 60
  | .psHour => d + 3600
  | .psDay => d + 86400
  | _ => d + 1

def addDay (recorder : THDataRec) (data : THData) (lastDate : Int) : THDataRec :=
  { recorder with
    d := recorder.d.add H_DAYS recorder.addMethod (recorder.compare · · .psDay) data lastDate }

def addHour (recorder : THDataRec) (data : THData) (lastDate : Int) : THDataRec :=
  addDay
    { recorder with
      h := recorder.h.add H_HOURS recorder.addMethod (recorder.compare · · .psHour) data lastDate }
    data lastDate

def addMinute (recorder : THDataRec) (data : THData) (lastDate : Int) : THDataRec :=
  addHour
    { recorder with
      m := recorder.m.add H_MINUTES recorder.addMethod (recorder.compare · · .psMinute) data
        lastDate }
    data lastDate

def addSecond (recorder : THDataRec) (data : THData) (lastDate : Int) : THDataRec :=
  addMinute
    { recorder with
      s := recorder.s.add H_SECONDS recorder.addMethod (recorder.compare · · .psSecond) data
        lastDate }
    data lastDate

/-- `THDataRec::Add`: the loop goes through the levels from that of `ps` up. -/
def add (recorder : THDataRec) (data : THData) (lastDate : Int) (ps : THParticleSize) : THDataRec :=
  match recorder.resolve ps with
  | .psMinute => recorder.addMinute data lastDate
  | .psHour => recorder.addHour data lastDate
  | .psDay => recorder.addDay data lastDate
  | _ => recorder.addSecond data lastDate

/-- `THDataRec::THDataRec`, at the time `clock` and on the dates which the memory holds. -/
def new (floating : THDataMode → THCollectMode → THAddMethod) (dm : THDataMode)
    (cm : THCollectMode) (ps : THParticleSize) (writeToDisk : Bool) (clock : Int)
    (memory : THParticleSize → Nat → Int) : THDataRec :=
  { fWriteToDisk := writeToDisk, dataMode := dm, particleSize := ps
    s := .new (memory .psSecond), m := .new (memory .psMinute), h := .new (memory .psHour)
    d := .new (memory .psDay), bData := [], wDate := clock, lData := .zero, lDate := 0
    addMethod := chooseAddMethod floating dm cm }

/-! ## Files -/

/-- The bytes which `Write` puts out for a value of a mode. -/
def valueSize : THDataMode → Nat
  | .dmByte => 1
  | .dmWord => 2
  | .dmCardinal => 4
  | .dmDouble => 8
  | .dmInt64 => 8
  | .dmFloat => 4
  | .dmInt => 4

/-- A date and the bytes of a value, as they are written to a file. -/
abbrev FileRecord := Int × Nat

/-- What `Write` puts out for a sample. -/
def fileRecord (dm : THDataMode) (sample : Int × THData) : FileRecord :=
  (sample.1, sample.2.data.toNat % 256 ^ valueSize dm)

/-- The files of a recorder: the working file, if it exists, and the archives under their names, in
the order in which they were made. -/
structure DataFiles (ν : Type) where
  working : Option (List FileRecord)
  history : List (ν × List FileRecord)

variable {ν : Type} [DecidableEq ν]

/-- `RenameFile` of the working file; a file that has the name is replaced. -/
def DataFiles.archive (files : DataFiles ν) (name : ν) (records : List FileRecord) : DataFiles ν :=
  { working := none
    history := files.history.filter (fun file => decide (file.1 ≠ name)) ++ [(name, records)] }

/-- The working file has to be archived: the day of the last write is over, or the file is too
large. -/
def needsArchive (recorder : THDataRec) (clock : Int) (records : List FileRecord) : Bool :=
  ! recorder.compare clock recorder.wDate .psDay ||
    decide (records.length * (8 + valueSize recorder.dataMode) > H_DAT_VOLUME)

/-- `THDataRec::Write` at the time `clock`; `archiveName` makes the name of an archive from
`WDate`. -/
def write (archiveName : Int → ν) (recorder : THDataRec) (clock : Int) (files : DataFiles ν) :
    THDataRec × DataFiles ν :=
  let files :=
    match files.working with
    | some records =>
        if recorder.needsArchive clock records then
          files.archive (archiveName recorder.wDate) records
        else files
    | none => files
  if recorder.bData.length = 0 then (recorder, files)
  else
    -- the mode "wb+" truncates the file, so that its end is its beginning
    ({ recorder with wDate := clock, bData := [] },
      { files with working := some (recorder.bData.map (fileRecord recorder.dataMode)) })

/-- `THDataRec::Put`; `clock` and `clock'` are what `GetTimestamp` returns in it and in `Write`. -/
def put (archiveName : Int → ν) (recorder : THDataRec) (data : THData) (time clock clock' : Int)
    (files : DataFiles ν) : THDataRec × DataFiles ν :=
  let time := if time = 0 then clock else time
  let recorder := { recorder.add data time .psDefault with lDate := time, lData := data }
  if recorder.fWriteToDisk then
    let recorder := { recorder with bData := recorder.bData ++ [(time, data)] }
    let first := (recorder.bData.headD (time, data)).1
    if recorder.bData.length = H_BUFFERS ∨ time - first > 3 then
      recorder.write archiveName clock' files
    else (recorder, files)
  else (recorder, files)

/-- `THDataRec::~THDataRec`. -/
def destroy (archiveName : Int → ν) (recorder : THDataRec) (clock : Int) (files : DataFiles ν) :
    DataFiles ν :=
  if recorder.fWriteToDisk then (recorder.write archiveName clock files).2 else files

end THDataRec

end CommonLib
