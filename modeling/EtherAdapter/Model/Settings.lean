/-
**The configuration file** (`ConfigParser.h`, `AdapterConfig.cpp`, POSIX branch).

The file is its bytes. `std::getline` cuts them into lines; `ConfigParser::load` trims a line, skips
it, opens a section or sets a key, where the last setting of a key is the one that stays.
`AdapterConfig::load` reads every setting with its default, cuts ports to 16 bits and brings some
numbers into range. Log lines are left out.
-/

import Mathlib.Logic.Function.Basic
import EtherAdapter.Model.Numbers

namespace EtherAdapter

/-! ### Texts -/

/-- `std::getline` with a delimiter, until the end: the last piece may lack it. -/
def getlines (delim : UInt8) : Bytes → Bytes → List Bytes
  | cur, [] => if cur = [] then [] else [cur]
  | cur, c :: rest =>
    if c = delim then cur :: getlines delim [] rest else getlines delim (cur ++ [c]) rest

/-- Both ends without the bytes that are dropped there. -/
def trimBy (dropped : UInt8 → Bool) (s : Bytes) : Bytes :=
  ((s.dropWhile dropped).reverse.dropWhile dropped).reverse

/-- `std::atoi` on a C string: `strtol`, which saturates, cut to an `int`. -/
def atoiBytes (s : Bytes) : Int :=
  let text := (s.takeWhile (· ≠ 0)).dropWhile isSpaceByte
  let sign := scanSign text
  let size : Int := digitsValue 10 ((text.drop sign.2).takeWhile isDigitByte)
  (Int64.ofInt (if sign.1 then max (-2 ^ 63) (-size) else min (2 ^ 63 - 1) size)).toInt32.toInt

/-! ### `ConfigParser` -/

/-- `ConfigParser` while it loads: the section it is in, and the settings by section and key. -/
structure ConfigParser where
  currentSection : Bytes := bytesOf "default"
  sections : Bytes × Bytes → Option Bytes := fun _ => none

namespace ConfigParser

/-- Surrounding quotes are removed. -/
def unquoted (val : Bytes) : Bytes :=
  if 2 ≤ val.length ∧ ((val.head? = some 34 ∧ val.getLast? = some 34) ∨
      (val.head? = some 39 ∧ val.getLast? = some 39)) then (val.drop 1).dropLast
  else val

/-- One line. -/
def readLine (cfg : ConfigParser) (line : Bytes) : ConfigParser :=
  let line := trimBy isSpaceByte line
  if line = [] ∨ line.head? = some 35 ∨ line.head? = some 59 then cfg
  else if line.head? = some 91 ∧ line.getLast? = some 93 then
    { cfg with currentSection := (line.drop 1).dropLast }
  else if 61 ∈ line then
    let key := trimBy isSpaceByte (line.takeWhile (· ≠ 61))
    let val := trimBy isSpaceByte ((line.dropWhile (· ≠ 61)).drop 1)
    { cfg with
      sections := Function.update cfg.sections (cfg.currentSection, key) (some (unquoted val)) }
  else cfg

/-- `load`, on the bytes of the file. -/
def load (file : Bytes) : ConfigParser := (getlines 10 [] file).foldl readLine {}

def get (cfg : ConfigParser) (sec key : String) (default_ : Bytes) : Bytes :=
  (cfg.sections (bytesOf sec, bytesOf key)).getD default_

def getInt (cfg : ConfigParser) (sec key : String) (default_ : Int) : Int :=
  let v := cfg.get sec key []
  if v = [] then default_ else atoiBytes v

def getBool (cfg : ConfigParser) (sec key : String) (default_ : Bool) : Bool :=
  let v := cfg.get sec key []
  if v = [] then default_
  else
    let l := v.map lowerByte
    l = bytesOf "true" ∨ l = bytesOf "1" ∨ l = bytesOf "yes" ∨ l = bytesOf "on"

end ConfigParser

/-! ### `AdapterConfig` -/

structure ServerConfig where
  extraListenPorts : List UInt16 := []
  maxConnections : Int := 1024
deriving DecidableEq, Repr

structure SqliteConfig where
  path : Bytes := bytesOf "config/etherAdapter.db"
deriving DecidableEq, Repr

structure EtherDBConfig where
  host : Bytes := bytesOf "127.0.0.1"
  port : UInt16 := 7040
  user : Bytes := bytesOf "root"
  password : Bytes := bytesOf "etherdbdata"
  db : Bytes := bytesOf "adapter"
  createDatabase : Bool := true
  createTables : Bool := true
  batchRows : Int := 4000
  flushIntervalMs : Int := 20
deriving DecidableEq, Repr

structure HttpConfig where
  port : UInt16 := 0
deriving DecidableEq, Repr

structure ModbusConfig where
  pollIntervalMs : Int := 3000
  connectTimeoutMs : Int := 1500
deriving DecidableEq, Repr

structure LogConfig where
  dir : Bytes := bytesOf "log"
  level : Bytes := bytesOf "info"
deriving DecidableEq, Repr

structure ZmqConfig where
  enabled : Bool := false
  pubEndpoint : Bytes := bytesOf "tcp://*:5555"
deriving DecidableEq, Repr

structure AdapterConfig where
  server : ServerConfig := {}
  sqlite : SqliteConfig := {}
  etherdb : EtherDBConfig := {}
  http : HttpConfig := {}
  modbus : ModbusConfig := {}
  log : LogConfig := {}
  zmq : ZmqConfig := {}
  exeDir : Bytes
  configFile : Bytes
deriving DecidableEq, Repr

/-- `getExeDir`, on what `readlink` returns. -/
def getExeDir (link : Option Bytes) : Bytes :=
  match link with
  | none | some [] => []
  | some p =>
    if 92 ∈ p ∨ 47 ∈ p then
      let dir := ((p.reverse.dropWhile fun c => c ≠ 92 && c ≠ 47).drop 1).reverse
      if dir = [] then bytesOf "." else dir
    else []

/-- A blank in a port list. -/
def isPortBlank (c : UInt8) : Bool := c == 32 || c == 9

/-- One item of a port list. -/
def parsePort (item : Bytes) : Option UInt16 :=
  let v := atoiBytes (trimBy isPortBlank item)
  if item.all isPortBlank then none
  else if 0 < v ∧ v ≤ 65535 then some (UInt16.ofInt v) else none

def parsePortList (text : Bytes) : List UInt16 := (getlines 44 [] text).filterMap parsePort

/-- A number is brought up to the smallest one allowed. -/
def atLeast (least v : Int) : Int := if v < least then least else v

/-- `AdapterConfig::load`; there may be no file. -/
def AdapterConfig.load (link : Option Bytes) (cfgFile : Bytes) (file : Option Bytes) :
    AdapterConfig :=
  let cfg : AdapterConfig := { exeDir := getExeDir link, configFile := cfgFile }
  match file with
  | none => cfg
  | some content =>
    let ini := ConfigParser.load content
    { cfg with
      server :=
        { extraListenPorts := parsePortList (ini.get "server" "extraListenPorts" [])
          maxConnections := ini.getInt "server" "maxConnections" cfg.server.maxConnections }
      sqlite := { path := ini.get "sqlite" "path" cfg.sqlite.path }
      etherdb :=
        { host := ini.get "etherdb" "host" cfg.etherdb.host
          port := UInt16.ofInt (ini.getInt "etherdb" "port" cfg.etherdb.port.toNat)
          user := ini.get "etherdb" "user" cfg.etherdb.user
          password := ini.get "etherdb" "password" cfg.etherdb.password
          db := ini.get "etherdb" "db" cfg.etherdb.db
          createDatabase := ini.getBool "etherdb" "createDatabase" cfg.etherdb.createDatabase
          createTables := ini.getBool "etherdb" "createTables" cfg.etherdb.createTables
          batchRows := atLeast 1 (ini.getInt "etherdb" "batchRows" cfg.etherdb.batchRows)
          flushIntervalMs :=
            atLeast 1 (ini.getInt "etherdb" "flushIntervalMs" cfg.etherdb.flushIntervalMs) }
      http := { port := UInt16.ofInt (ini.getInt "http" "port" cfg.http.port.toNat) }
      modbus :=
        { pollIntervalMs :=
            atLeast 50 (ini.getInt "modbus" "pollIntervalMs" cfg.modbus.pollIntervalMs)
          connectTimeoutMs :=
            atLeast 100 (ini.getInt "modbus" "connectTimeoutMs" cfg.modbus.connectTimeoutMs) }
      log :=
        { dir := ini.get "log" "dir" cfg.log.dir, level := ini.get "log" "level" cfg.log.level }
      zmq :=
        { enabled := ini.getBool "zmq" "enabled" cfg.zmq.enabled
          pubEndpoint := ini.get "zmq" "pubEndpoint" cfg.zmq.pubEndpoint } }

end EtherAdapter
