import SolarBill.Booking.StockRoom
import SolarBill.CommandLine
import SolarBill.Files.Tree
import SolarBill.Main
import SolarBill.Proofs.Bill.Quantities
import SolarBill.Proofs.Booking.Conservation
import SolarBill.Proofs.Booking.Saga
import SolarBill.Proofs.Booking.Stock
import SolarBill.Proofs.Number.Packing
import SolarBill.Proofs.Number.Rounding
import SolarBill.Proofs.Number.Value
import SolarBill.Proofs.Session.Bill
import SolarBill.Proofs.Session.Printed
import SolarBill.Proofs.Session.Parity
import SolarBill.Proofs.Session.Review
import SolarBill.Proofs.Session.Step
import SolarBill.Proofs.Number.Nearest
import SolarBill.Proofs.Bill.Edits
import SolarBill.Proofs.Booking.Restoration
import SolarBill.Proofs.Number.Order
import SolarBill.Proofs.Number.Counting
import SolarBill.Proofs.Bill.Lines
import SolarBill.Proofs.Bill.Chosen
import SolarBill.Proofs.Wizard.Bookable
import SolarBill.Proofs.Plan.Rearranged
import SolarBill.Proofs.Bill.Rearranged
import SolarBill.Proofs.Coefficients.Sizing
import SolarBill.Proofs.Number.Remark
import SolarBill.Proofs.Session.Announced
import SolarBill.Proofs.Bill.LineMap
import SolarBill.Proofs.Session.Followed
import SolarBill.Proofs.Session.Silent
import SolarBill.Proofs.Session.Clients
import SolarBill.Proofs.Catalog.Agreement
import SolarBill.Proofs.Bill.Named
import SolarBill.Proofs.Protection.Overridden
import SolarBill.Proofs.Bill.Merged
import SolarBill.Proofs.Number.Integer
import SolarBill.Proofs.Bill.Steps
import SolarBill.Proofs.Data.Faithful
import SolarBill.Proofs.Data.Records
import SolarBill.Proofs.Data.Document
import SolarBill.Proofs.Data.Layer
import SolarBill.Proofs.Data.Every
import SolarBill.Proofs.Yaml.Plain
import SolarBill.Proofs.Yaml.Quoted
import SolarBill.Proofs.Yaml.Lines
import SolarBill.Proofs.Yaml.Lexer
import SolarBill.Proofs.Yaml.Run
import SolarBill.Proofs.Yaml.Tokens
import SolarBill.Proofs.Yaml.Nodes
import SolarBill.Proofs.Yaml.Words
import SolarBill.Proofs.Yaml.Counts
import SolarBill.Proofs.Data.Carried
import SolarBill.Proofs.Data.Settings
import SolarBill.Proofs.Data.Directory
import SolarBill.Proofs.Coefficients.Accepted
import SolarBill.Proofs.Protection.Sized
import SolarBill.Proofs.Bill.Flags
import SolarBill.Proofs.Bill.Dongles
import SolarBill.Proofs.Rails.Clamps
import SolarBill.Proofs.Rails.Profiles
import SolarBill.Proofs.Booking.Decision
import SolarBill.Proofs.Number.Quotient
import SolarBill.Proofs.Number.Division
import SolarBill.Proofs.Number.Closest
import SolarBill.Proofs.Number.Scientific
import SolarBill.Proofs.Number.Grouped
import SolarBill.Proofs.Session.Walk
import SolarBill.Proofs.Session.Counters
import SolarBill.Proofs.Session.Override
import SolarBill.Proofs.Catalog.Collected
import SolarBill.Proofs.Data.Path
import SolarBill.Proofs.Bill.Counted
import SolarBill.Proofs.Wizard.Located
