import Seedbed.Disk
import Seedbed.Database
import Seedbed.Sql.Table
import Seedbed.Schema.Records
import Seedbed.Seeder.Run
import Seedbed.Shelf
import Seedbed.Proofs.Tag.Grammar
import Seedbed.Proofs.Text.Utf16
import Seedbed.Proofs.Tag.Reading
import Seedbed.Proofs.Tag.Scan
import Seedbed.Proofs.Action
import Seedbed.Proofs.Tag.Split
import Seedbed.Proofs.Calls
import Seedbed.Proofs.Seeder.Inserts
import Seedbed.Proofs.Seeder.Populate
import Seedbed.Proofs.Seeder.Session
import Seedbed.Proofs.Database.Transaction
import Seedbed.Proofs.Keyed
import Seedbed.Proofs.Yaml.Nodes
import Seedbed.Proofs.Yaml.Keys
import Seedbed.Proofs.Yaml.Records
import Seedbed.Proofs.Binary64.Whole
import Seedbed.Proofs.Binary64.Numeral
import Seedbed.Proofs.Binary64.Text
import Seedbed.Proofs.Yaml.Plain
import Seedbed.Proofs.Yaml.Row
import Seedbed.Proofs.Seeder.Reference
import Seedbed.Proofs.Seeder.Label
import Seedbed.Proofs.Sql.Lexeme
import Seedbed.Proofs.Sql.Statement
import Seedbed.Proofs.Shelf
import Seedbed.Proofs.Seeder.Order
import Seedbed.Proofs.Overlap.Runs
import Seedbed.Proofs.Overlap.Independence
import Seedbed.Proofs.Overlap.Settlements
import Seedbed.Proofs.Overlap.Handed
import Seedbed.Proofs.Database.Rollback
import Seedbed.Proofs.Fault.Filename
import Seedbed.Proofs.Database.Rows
import Seedbed.Proofs.Database.Seeding
import Seedbed.Proofs.Seeder.Commuting
import Seedbed.Proofs.Overlap.Alone
import Seedbed.Proofs.Tag.Joined
import Seedbed.Proofs.Tag.Chosen
import Seedbed.Proofs.Seeder.Lines
import Seedbed.Proofs.Shelf.Preview
import Seedbed.Proofs.Mirrored
import Seedbed.Proofs.Seeder.Discretion
import Seedbed.Proofs.Load.Stages
import Seedbed.Proofs.Schema.Validation
import Seedbed.Proofs.Value.Json
import Seedbed.Proofs.Yaml.Quoted
import Seedbed.Proofs.Load.Quoted
import Seedbed.Proofs.Yaml.Values
import Seedbed.Proofs.Yaml.Evaluate
import Seedbed.Proofs.Sql.Parameters
import Seedbed.Proofs.Keyed.Arranged
import Seedbed.Proofs.Registry
import Seedbed.Proofs.Shelf.Query
import Seedbed.Proofs.Fault.Context
import Seedbed.Proofs.Seeder.Collisions
import Seedbed.Proofs.Tag.Nested
